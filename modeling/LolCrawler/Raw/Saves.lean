import LolCrawler.Raw.Samples

/-! # What a save keeps

A file that is there tells the JSON of the save that linked it: as a plain frame, or as a
frame of the dictionary, which is there to stay before any frame needs it. A save keeps
this while the recompactor goes on beside it, and the files of a save that completes are
there to stay.
-/

namespace LolCrawler.Raw

open Foundation Script

/-! ## Names -/

section Names

variable {path other : Path}

/-- The name of a sample ends in a t. -/
theorem IsSample.last (sample : isSample path) : path.name.toList.getLast? = some 't' := by
  simp only [isSample, isRawJsonSamplePath, Bool.and_eq_true, Bool.or_eq_true,
    List.isSuffixOf_iff_suffix] at sample
  rcases sample.2 with ⟨front, whole⟩ | ⟨front, whole⟩
  · rw [← whole, List.getLast?_append]
    rfl
  · rw [← whole, List.getLast?_append]
    rfl

/-- The path of a sample is one. -/
theorem samplePath_isSample (platform matchId : String) {kind : String}
    (known : kind = "match" ∨ kind = "timeline") : isSample (samplePath platform matchId kind) := by
  have dir : (rawDir ++ [platform]).dropLast = rawDir := List.dropLast_concat
  have apart : rawDir ++ [platform] ≠ rawDir := by simp
  simp only [isSample, samplePath, isRawJsonSamplePath, String.toList_append, dir, apart,
    Bool.and_eq_true, Bool.or_eq_true, List.isSuffixOf_iff_suffix, decide_true, ne_eq,
    not_false_eq_true, true_and]
  rcases known with rfl | rfl
  · exact .inl ⟨matchId.toList, by simp⟩
  · exact .inr ⟨matchId.toList, by simp⟩

/-- The name of a temporary file ends in a p. -/
theorem tmpPath_last (path : Path) : (tmpPath path).name.toList.getLast? = some 'p' := by
  simp [tmpPath, List.getLast?_append]

/-- The name of a temporary file of the writer ends in a p. -/
theorem rawWriteTmpPath_last (path : Path) :
    (rawWriteTmpPath path).name.toList.getLast? = some 'p' := by
  simp [rawWriteTmpPath, List.getLast?_append]

/-- A file that readers look at. -/
def Lasting (path : Path) : Prop := isSample path ∨ path = dictPath

/-- The name of a file that lasts ends in a t. -/
theorem Lasting.last (lasting : Lasting path) : path.name.toList.getLast? = some 't' := by
  rcases lasting with sample | rfl
  · exact IsSample.last sample
  · decide

/-- A file that lasts is no temporary file. -/
theorem Lasting.ne_tmp (lasting : Lasting path) : path ≠ tmpPath other := by
  rintro rfl
  have last := lasting.last
  rw [tmpPath_last] at last
  cases last

/-- A file that lasts is no temporary file of the writer. -/
theorem Lasting.ne_writeTmp (lasting : Lasting path) : path ≠ rawWriteTmpPath other := by
  rintro rfl
  have last := lasting.last
  rw [rawWriteTmpPath_last] at last
  cases last

/-- The two kinds of temporary names differ. -/
theorem tmp_ne_writeTmp (lasting : Lasting path) : tmpPath path ≠ rawWriteTmpPath other := by
  intro same
  have names : path.name ++ ".tmp" = other.name ++ ".write.tmp" := congrArg Path.name same
  have lists : path.name.toList ++ ".tmp".toList =
      (other.name.toList ++ ".write".toList) ++ ".tmp".toList := by
    rw [← String.toList_append, names]
    simp
  have last := lasting.last
  rw [List.append_cancel_right lists, List.getLast?_append] at last
  have tail : ".write".toList.getLast? = some 'e' := by decide
  rw [tail] at last
  cases last

/-- The dictionary is no sample. -/
theorem dictPath_not_isSample : isSample dictPath = false := by decide

end Names

/-! ## What files tell -/

variable (zstd : Zstd)

/-- The dictionary is there to stay. -/
def Held (disk : Disk) (dict : Bytes) : Prop :=
  disk.look dictPath = some dict ∧ none ∉ disk.past dictPath

/-- The frame is one of this JSON, and can be read. -/
inductive Tells (disk : Disk) (frame : Bytes) (json : String) : Prop where
  | plain (id : zstd.dictIdFromFrame frame = none)
      (decoded : zstd.decodeAll frame = .ok (asBytes json))
  | dict {dict : Bytes} {id : ℕ+} (held : Held disk dict)
      (dictId : zstd.dictIdFromDict dict = some id) (id : zstd.dictIdFromFrame frame = some id)
      (decoded : zstd.decodeWith dict frame = .ok (asBytes json))

/-- What holds of the files between any two operations. -/
structure Sound (shelf : Shelf) : Prop where
  told : ∀ path, isSample path → ∀ file, some file ∈ shelf.disk.entries path →
    file.Whole ∧ ∃ json, shelf.linked path = some json ∧ Tells zstd shelf.disk file.bytes json
  absent : ∀ path, isSample path → shelf.disk.now path = none →
    ∀ entry ∈ shelf.disk.past path, entry = none
  dict : ∀ file, some file ∈ shelf.disk.entries dictPath →
    file.Whole ∧ shelf.disk.now dictPath = some file

/-- What a save promises to the recompactor. -/
structure Saves (before after : Shelf) : Prop where
  sound : Sound zstd before → Sound zstd after
  there : ∀ path, isSample path → before.disk.now path ≠ none →
    after.disk.now path = before.disk.now path ∧ after.linked path = before.linked path
  keeps : ∀ path, isSample path → before.disk.Keeps path → after.disk.Keeps path
  dict : before.disk.Spared after.disk dictPath
  tmp : ∀ path, Lasting path →
    after.disk.now (tmpPath path) = before.disk.now (tmpPath path)

/-- What the recompactor promises to a save. -/
structure Recompacts (before after : Shelf) : Prop where
  sound : Sound zstd before → Sound zstd after
  linked : after.linked = before.linked
  there : ∀ path, isSample path → (after.disk.now path = none ↔ before.disk.now path = none)
  keeps : ∀ path, isSample path → before.disk.Keeps path → after.disk.Keeps path
  look : ∀ dict, before.disk.look dictPath = some dict → after.disk.look dictPath = some dict
  tmp : ∀ path, after.disk.now (rawWriteTmpPath path) = before.disk.now (rawWriteTmpPath path)

variable {zstd}

instance : Std.Refl (Saves zstd) where
  refl _ := ⟨fun sound => sound, fun _ _ _ => ⟨rfl, rfl⟩, fun _ _ kept => kept, .refl _ _,
    fun _ _ => rfl⟩

instance : IsTrans Shelf (Saves zstd) where
  trans _ _ _ first second := by
    refine ⟨fun sound => second.sound (first.sound sound), fun path sample present => ?_,
      fun path sample kept => second.keeps path sample (first.keeps path sample kept),
      first.dict.trans second.dict,
      fun path lasting => (second.tmp path lasting).trans (first.tmp path lasting)⟩
    obtain ⟨same, told⟩ := first.there path sample present
    obtain ⟨same', told'⟩ := second.there path sample (same ▸ present)
    exact ⟨same'.trans same, told'.trans told⟩

instance : Std.Refl (Recompacts zstd) where
  refl _ := ⟨fun sound => sound, rfl, fun _ _ => Iff.rfl, fun _ _ kept => kept, fun _ here => here,
    fun _ => rfl⟩

instance : IsTrans Shelf (Recompacts zstd) where
  trans _ _ _ first second :=
    ⟨fun sound => second.sound (first.sound sound), second.linked.trans first.linked,
      fun path sample => (second.there path sample).trans (first.there path sample),
      fun path sample kept => second.keeps path sample (first.keeps path sample kept),
      fun dict here => second.look dict (first.look dict here),
      fun path => (second.tmp path).trans (first.tmp path)⟩

section Quiet

variable {before after : Shelf}

/-- A dictionary that is spared is still held. -/
theorem Held.spared {disk next : Disk} {dict : Bytes} (held : Held disk dict)
    (spared : disk.Spared next dictPath) : Held next dict :=
  ⟨by rw [Disk.look, spared.now]; exact held.1, fun gone => held.2 (spared.past _ gone)⟩

/-- A frame that told its sample still does. -/
theorem Tells.mono {disk next : Disk} {frame : Bytes} {json : String}
    (tells : Tells zstd disk frame json) (held : ∀ dict, Held disk dict → Held next dict) :
    Tells zstd next frame json := by
  cases tells with
  | plain id decoded => exact .plain id decoded
  | dict here dictId id decoded => exact .dict (held _ here) dictId id decoded

/-- Nothing happens to the files that readers look at. -/
structure Quiet (before after : Shelf) : Prop where
  linked : after.linked = before.linked
  spared : ∀ path, Lasting path → before.disk.Spared after.disk path

/-- Where nothing happens to what lasts, the samples stay sound. -/
theorem Quiet.sound (quiet : Quiet before after) (sound : Sound zstd before) :
    Sound zstd after where
  told path sample file inside := by
    obtain ⟨whole, json, told, tells⟩ :=
      sound.told path sample file ((quiet.spared path (.inl sample)).entries inside)
    exact ⟨whole, json, by rw [quiet.linked, told],
      tells.mono fun dict held => held.spared (quiet.spared _ (.inr rfl))⟩
  absent path sample gone entry inside := by
    have spared := quiet.spared path (.inl sample)
    exact sound.absent path sample (spared.now ▸ gone) entry (spared.past entry inside)
  dict file inside := by
    have spared := quiet.spared dictPath (.inr rfl)
    obtain ⟨whole, here⟩ := sound.dict file (spared.entries inside)
    exact ⟨whole, spared.now.trans here⟩

/-- A save in which nothing happens to what lasts. -/
theorem Quiet.saves (quiet : Quiet before after) (tmp : ∀ path, Lasting path →
      after.disk.now (tmpPath path) = before.disk.now (tmpPath path)) : Saves zstd before after :=
  ⟨quiet.sound, fun path sample _ => ⟨(quiet.spared path (.inl sample)).now, by rw [quiet.linked]⟩,
    fun path sample => (quiet.spared path (.inl sample)).keeps, quiet.spared _ (.inr rfl), tmp⟩

/-- A recompaction in which nothing happens to what lasts. -/
theorem Quiet.recompacts (quiet : Quiet before after) (tmp : ∀ path,
      after.disk.now (rawWriteTmpPath path) = before.disk.now (rawWriteTmpPath path)) :
    Recompacts zstd before after :=
  ⟨quiet.sound, quiet.linked, fun path sample => by rw [(quiet.spared path (.inl sample)).now],
    fun path sample => (quiet.spared path (.inl sample)).keeps,
    fun dict here => by rw [Disk.look, (quiet.spared _ (.inr rfl)).now]; exact here, tmp⟩

end Quiet

/-! ## A save -/

section Save

/-- The operations of a save, if it takes no file as it is before its directory is synced. -/
def sureSaving (sample : Sample) : Surroundings DiskOp DiskOp.Answer Shelf :=
  fun op shelf answer after => saving sample op shelf answer after ∧
    ∀ path, op = .stat path → shelf.disk.Synced path

/-- A part of a save that others do not disturb. -/
abbrev SaveKeeps {α : Type} (zstd : Zstd) (sample : Sample) (ends : α → Shelf → Prop) :
    Io α → Shelf → Prop :=
  Safe (sureSaving sample) (Recompacts zstd) (Saves zstd) ends (Sound zstd)

variable {sample : Sample} {shelf before now after : Shelf} {path : Path}

/-- An operation on temporary files of saves. -/
theorem saving_quiet {op : DiskOp} {answer : Option op.Answer}
    (asked : saving sample op before answer after)
    (unlinked : ∀ found, before.note sample op found = before.linked)
    (only : ∀ name ∈ op.touches, ∃ other, name = rawWriteTmpPath other) :
    Quiet before after ∧ Saves zstd before after := by
  have spared : ∀ other, other ∉ op.touches → before.disk.Spared after.disk other := by
    intro other apart
    cases answer with
    | none => exact asked.1.spared apart
    | some found => exact asked.1.spared apart
  have linked : after.linked = before.linked := by
    cases answer with
    | none => exact asked.2
    | some found => exact asked.2.trans (unlinked found)
  have quiet : Quiet before after := by
    refine ⟨linked, fun other lasting => spared other fun touched => ?_⟩
    obtain ⟨tmp, rfl⟩ := only other touched
    exact lasting.ne_writeTmp rfl
  refine ⟨quiet, quiet.saves fun other lasting => (spared _ fun touched => ?_).now⟩
  obtain ⟨tmp, same⟩ := only _ touched
  exact tmp_ne_writeTmp lasting same

/-- One operation on temporary files. What it is good for must survive the recompactor. -/
theorem quiet_call {op : DiskOp} {ends : op.Answer → Shelf → Prop} (sound : Sound zstd shelf)
    (unlinked : ∀ now found, Shelf.note sample now op found = now.linked)
    (only : ∀ name ∈ op.touches, ∃ other, name = rawWriteTmpPath other)
    (holds : ∀ now, Recompacts zstd shelf now → ∀ answer after,
      op.Performs now.disk answer after.disk → Quiet now after →
        (∀ path, op = .stat path → now.disk.Synced path) →
          ∀ later, Recompacts zstd after later → ends answer later) :
    SaveKeeps zstd sample ends (call op) shelf := by
  refine Safe.perform fun now moved answer after asked => ?_
  obtain ⟨asked, sure⟩ := asked
  obtain ⟨quiet, saves⟩ := saving_quiet asked (unlinked now) only
  refine ⟨saves, fun later more => ?_⟩
  cases answer with
  | none => exact more.sound (quiet.sound (moved.sound sound))
  | some found => exact holds now moved found after asked.1 quiet sure later more

/-- The file is not there yet, and its temporary file holds this. -/
structure Preparing (zstd : Zstd) (path : Path) (tmp : Option DiskFile) (shelf : Shelf) :
    Prop where
  sound : Sound zstd shelf
  absent : shelf.disk.now path = none
  tmp : shelf.disk.now (rawWriteTmpPath path) = tmp

/-- A save prepares its file undisturbed by the others. -/
theorem Preparing.others {tmp : Option DiskFile} (sampled : isSample path)
    (preparing : Preparing zstd path tmp before) (moved : Recompacts zstd before after) :
    Preparing zstd path tmp after :=
  ⟨moved.sound preparing.sound, (moved.there path sampled).mpr preparing.absent,
    (moved.tmp path).trans preparing.tmp⟩

/-- The next operation on the temporary file. -/
theorem prepare_call {op : DiskOp} {tmp tmp' : Option DiskFile} (sampled : isSample path)
    (preparing : Preparing zstd path tmp shelf)
    (unlinked : ∀ now found, Shelf.note sample now op found = now.linked)
    (only : ∀ name ∈ op.touches, name = rawWriteTmpPath path)
    (does : ∀ disk answer next, op.Performs disk answer next →
      disk.now (rawWriteTmpPath path) = tmp → next.now (rawWriteTmpPath path) = tmp') :
    SaveKeeps zstd sample (fun _ => Preparing zstd path tmp') (call op) shelf := by
  refine quiet_call preparing.sound unlinked (fun name inside => ⟨path, only name inside⟩)
    fun now moved answer after performed quiet _ later more => ?_
  have here := preparing.others sampled moved
  refine Preparing.others sampled ⟨quiet.sound here.sound, ?_, ?_⟩ more
  · exact (quiet.spared path (.inl sampled)).now.trans here.absent
  · exact does _ answer _ performed here.tmp

/-- A save writes its temporary file safely. -/
theorem writeNew_safe {bytes : Bytes} {tmp : Option DiskFile} (sampled : isSample path)
    (preparing : Preparing zstd path tmp shelf) :
    SaveKeeps zstd sample (fun _ => Preparing zstd path (some ⟨bytes, bytes.length⟩))
      (writeNew (rawWriteTmpPath path) bytes) shelf := by
  have removed : SaveKeeps zstd sample (fun _ => Preparing zstd path none)
      (call (.remove (rawWriteTmpPath path))) shelf := by
    refine prepare_call sampled preparing (fun _ _ => rfl) (by simp [DiskOp.touches]) ?_
    rintro disk _ next rfl -
    exact Function.update_self _ _ _
  have created : ∀ {now}, Preparing zstd path none now →
      SaveKeeps zstd sample (fun _ => Preparing zstd path (some ⟨[], 0⟩))
        (call (.createNew (rawWriteTmpPath path))) now := by
    intro now here
    refine prepare_call sampled here (fun _ _ => rfl) (by simp [DiskOp.touches]) ?_
    rintro disk _ next ⟨-, rfl⟩ -
    exact Function.update_self _ _ _
  have written : ∀ {now}, Preparing zstd path (some ⟨[], 0⟩) now →
      SaveKeeps zstd sample (fun _ => Preparing zstd path (some ⟨bytes, 0⟩))
        (call (.write (rawWriteTmpPath path) bytes)) now := by
    intro now here
    refine prepare_call sampled here (fun _ _ => rfl) (by simp [DiskOp.touches]) ?_
    rintro disk _ next ⟨file, found, rfl⟩ tmp
    cases found.symm.trans tmp
    exact Function.update_self _ _ _
  have synced : ∀ {now}, Preparing zstd path (some ⟨bytes, 0⟩) now →
      SaveKeeps zstd sample (fun _ => Preparing zstd path (some ⟨bytes, bytes.length⟩))
        (call (.sync (rawWriteTmpPath path))) now := by
    intro now here
    refine prepare_call sampled here (fun _ _ => rfl) (by simp [DiskOp.touches]) ?_
    rintro disk _ next ⟨file, found, rfl⟩ tmp
    cases found.symm.trans tmp
    exact Function.update_self _ _ _
  exact removed.context.bind fun _ _ here => (created here).context.bind fun _ _ here =>
    (written here).bind fun _ _ here => (synced here).context

/-- The file is linked, but its directory is not synced. -/
structure Linking (zstd : Zstd) (path : Path) (shelf : Shelf) : Prop where
  sound : Sound zstd shelf
  there : shelf.disk.now path ≠ none

/-- A save is about to link while nothing happens to what lasts. -/
theorem Linking.quiet (linking : Linking zstd path before) (sampled : isSample path)
    (quiet : Quiet before after) : Linking zstd path after :=
  ⟨quiet.sound linking.sound, (quiet.spared path (.inl sampled)).now ▸ linking.there⟩

/-- A save is about to link undisturbed by the others. -/
theorem Linking.moved (linking : Linking zstd path before) (sampled : isSample path)
    (moved : Recompacts zstd before after) : Linking zstd path after :=
  ⟨moved.sound linking.sound, fun gone => linking.there ((moved.there path sampled).mp gone)⟩

/-- The new file is linked. -/
theorem linked_sound {bytes : Bytes} {json : String} (sampled : isSample path)
    (sound : Sound zstd before) (absent : before.disk.now path = none)
    (id : zstd.dictIdFromFrame bytes = none) (decoded : zstd.decodeAll bytes = .ok (asBytes json)) :
    Sound zstd ⟨before.disk.rename path (some ⟨bytes, bytes.length⟩),
      Function.update before.linked path (some json)⟩ := by
  have apart : dictPath ≠ path := by
    rintro rfl
    cases dictPath_not_isSample.symm.trans sampled
  have dict : before.disk.Spared (before.disk.rename path (some ⟨bytes, bytes.length⟩)) dictPath :=
    .of_rename _ apart _
  refine ⟨fun other sampled' file inside => ?_, fun other sampled' gone entry inside => ?_,
    fun file inside => ?_⟩
  · by_cases same : other = path
    · subst same
      have found : some file = some ⟨bytes, bytes.length⟩ := by
        rw [Disk.entries, Disk.rename_now_self, Disk.rename_past_self] at inside
        rcases List.mem_cons.mp inside with here | here
        · exact here
        · rcases List.mem_cons.mp here with here | here
          · cases here.trans absent
          · cases sound.absent other sampled' absent _ here
      cases found
      exact ⟨Nat.le_refl _, json, Function.update_self _ _ _, .plain id decoded⟩
    · have spared : before.disk.Spared
          (before.disk.rename path (some ⟨bytes, bytes.length⟩)) other := .of_rename _ same _
      obtain ⟨whole, told, linked, tells⟩ := sound.told other sampled' file (spared.entries inside)
      exact ⟨whole, told, (Function.update_of_ne same _ _).trans linked,
        tells.mono fun _ held => held.spared dict⟩
  · by_cases same : other = path
    · subst same
      have there : (before.disk.rename other (some ⟨bytes, bytes.length⟩)).now other =
          some ⟨bytes, bytes.length⟩ := Function.update_self _ _ _
      cases there.symm.trans gone
    · have spared : before.disk.Spared
          (before.disk.rename path (some ⟨bytes, bytes.length⟩)) other := .of_rename _ same _
      exact sound.absent other sampled' (spared.now ▸ gone) entry (spared.past entry inside)
  · obtain ⟨whole, here⟩ := sound.dict file (dict.entries inside)
    exact ⟨whole, dict.now.trans here⟩

/-- A save links its file safely. -/
theorem link_safe {bytes : Bytes} {json : String} (sampled : isSample path)
    (given : sample.json path = some json)
    (preparing : Preparing zstd path (some ⟨bytes, bytes.length⟩) shelf)
    (id : zstd.dictIdFromFrame bytes = none) (decoded : zstd.decodeAll bytes = .ok (asBytes json)) :
    SaveKeeps zstd sample (fun free now => free = true ∧ Linking zstd path now)
      (call (.link (rawWriteTmpPath path) path)) shelf := by
  refine Safe.perform fun now moved answer after asked => ?_
  obtain ⟨asked, -⟩ := asked
  have here := preparing.others sampled moved
  cases answer with
  | none =>
      obtain ⟨failed, linked⟩ := asked
      have quiet : Quiet now after := ⟨linked, fun other _ => by
        rw [show after.disk = now.disk from failed]
        exact .refl _ _⟩
      exact ⟨quiet.saves fun _ _ => by rw [show after.disk = now.disk from failed],
        fun later more => more.sound (quiet.sound here.sound)⟩
  | some free =>
      obtain ⟨⟨file, found, free, same⟩, linked⟩ := asked
      cases found.symm.trans here.tmp
      rw [here.absent, Option.isNone_none] at free
      subst free
      obtain ⟨disk, told⟩ := after
      obtain rfl : disk = now.disk.rename path (some ⟨bytes, bytes.length⟩) := same
      obtain rfl : told = Function.update now.linked path (some json) := by
        rw [← given]
        exact linked
      have sound := linked_sound sampled here.sound here.absent id decoded
      have untouched : ∀ other, other ≠ path → now.disk.Spared
          (now.disk.rename path (some ⟨bytes, bytes.length⟩)) other :=
        fun other apart => .of_rename _ apart _
      have apart : ∀ other, now.disk.now other ≠ none → other ≠ path := by
        rintro _ there rfl
        exact there here.absent
      refine ⟨⟨fun _ => sound, fun other _ there => ?_, fun other _ kept => ?_, ?_,
        fun other lasting => ?_⟩,
        fun later more => ⟨rfl, Linking.moved ⟨sound, ?_⟩ sampled more⟩⟩
      · exact ⟨(untouched other (apart other there)).now,
          Function.update_of_ne (apart other there) _ _⟩
      · exact (untouched other (apart other kept.1)).keeps kept
      · exact untouched _ fun same => by cases dictPath_not_isSample.symm.trans (same ▸ sampled)
      · exact (untouched _ fun same => (show Lasting path from .inl sampled).ne_tmp same.symm).now
      · intro gone
        cases (Function.update_self path _ now.disk.now).symm.trans gone

/-- An operation on temporary files, after the link. -/
theorem linking_call {op : DiskOp} (sampled : isSample path) (linking : Linking zstd path shelf)
    (unlinked : ∀ now found, Shelf.note sample now op found = now.linked)
    (only : ∀ name ∈ op.touches, ∃ other, name = rawWriteTmpPath other) :
    SaveKeeps zstd sample (fun _ => Linking zstd path) (call op) shelf :=
  quiet_call linking.sound unlinked only fun _ moved _ _ _ quiet _ _ more =>
    ((linking.moved sampled moved).quiet sampled quiet).moved sampled more

/-- The file is there to stay. -/
structure Made (zstd : Zstd) (path : Path) (shelf : Shelf) : Prop where
  sound : Sound zstd shelf
  keeps : shelf.disk.Keeps path

/-- A file that is made stays made. -/
theorem Made.others (made : Made zstd path before) (sampled : isSample path)
    (moved : Recompacts zstd before after) : Made zstd path after :=
  ⟨moved.sound made.sound, moved.keeps path sampled made.keeps⟩

/-- The directory of the new file is synced. -/
theorem syncDir_safe (sampled : isSample path) (linking : Linking zstd path shelf) :
    SaveKeeps zstd sample (fun _ => Made zstd path) (call (.syncDir path.dir)) shelf := by
  refine quiet_call linking.sound (fun _ _ => rfl) (by simp [DiskOp.touches])
    fun now moved _ after performed quiet _ later more => ?_
  have here := (linking.moved sampled moved).quiet sampled quiet
  have safe : after.disk.past path = [] := by
    rw [show after.disk = now.disk.syncDir path.dir from performed]
    simp [Disk.syncDir]
  have kept : after.disk.Keeps path := ⟨here.there, by simp [safe]⟩
  exact Made.others ⟨here.sound, kept⟩ sampled more

/-- The error path of a link: the temporary file is removed if that works. -/
theorem unlinked_safe {tmp : Path} {err : Error} (sound : Sound zstd shelf) :
    SaveKeeps zstd sample (fun _ : Unit => Made zstd path)
      (do let _ ← attempt (call (.remove (rawWriteTmpPath tmp))); .fail err) shelf := by
  have removed : SaveKeeps zstd sample (fun _ => Sound zstd)
      (call (.remove (rawWriteTmpPath tmp))) shelf :=
    quiet_call sound (fun _ _ => rfl) (by simp [DiskOp.touches])
      fun _ moved _ _ _ quiet _ _ more => more.sound (quiet.sound (moved.sound sound))
  have tried : SaveKeeps zstd sample (fun _ => Sound zstd)
      (attempt (call (.remove (rawWriteTmpPath tmp)))) shelf :=
    .attempt (removed.weaken (fun _ _ here => here) fun _ here _ => here)
  exact tried.bind fun _ _ here => .fail fun _ more => more.sound here

/-- A save makes its file from the temporary one safely. -/
theorem linkNew_safe {bytes : Bytes} {json : String} (sampled : isSample path)
    (given : sample.json path = some json)
    (preparing : Preparing zstd path (some ⟨bytes, bytes.length⟩) shelf)
    (id : zstd.dictIdFromFrame bytes = none) (decoded : zstd.decodeAll bytes = .ok (asBytes json)) :
    SaveKeeps zstd sample (fun _ => Made zstd path) (linkNew (rawWriteTmpPath path) path)
      shelf := by
  have linked : SaveKeeps zstd sample
      (fun result now => result = .ok true ∧ Linking zstd path now ∨
        (∃ err, result = .error err) ∧ Sound zstd now)
      (attempt (call (.link (rawWriteTmpPath path) path))) shelf := by
    refine .attempt ((link_safe sampled given preparing id decoded).weaken (fun free _ here => ?_)
      fun _ here err => .inr ⟨⟨err, rfl⟩, here⟩)
    obtain ⟨rfl, linking⟩ := here
    exact .inl ⟨rfl, linking⟩
  refine linked.bind fun result now here => ?_
  rcases here with ⟨rfl, linking⟩ | ⟨⟨err, rfl⟩, sound⟩
  · have removed : SaveKeeps zstd sample (fun _ => Linking zstd path)
        (call (.remove (rawWriteTmpPath path))) now :=
      linking_call sampled linking (fun _ _ => rfl) (by simp [DiskOp.touches])
    exact removed.context.bind fun _ _ there => (syncDir_safe sampled there).context
  · exact unlinked_safe sound

/-- A file is created once. -/
theorem writeFileCreateOnceAtomically_safe {bytes : Bytes} {json : String}
    (sampled : isSample path) (given : sample.json path = some json) (sound : Sound zstd shelf)
    (id : zstd.dictIdFromFrame bytes = none) (decoded : zstd.decodeAll bytes = .ok (asBytes json)) :
    SaveKeeps zstd sample (fun _ => Made zstd path) (writeFileCreateOnceAtomically path bytes)
      shelf := by
  have found : SaveKeeps zstd sample (fun found now => Sound zstd now ∧
      (found = true → now.disk.Keeps path) ∧ (found = false → now.disk.now path = none))
      (call (.stat path)) shelf := by
    refine quiet_call sound (fun _ _ => rfl) (by simp [DiskOp.touches])
      fun now moved found after performed quiet sure later more => ?_
    obtain ⟨rfl, same⟩ := performed
    refine ⟨more.sound (quiet.sound (moved.sound sound)), fun there => ?_, fun gone => ?_⟩
    · have present : now.disk.now path ≠ none := Option.isSome_iff_ne_none.mp there
      have kept : after.disk.Keeps path := by
        rw [same]
        exact ⟨present, sure path rfl present⟩
      exact more.keeps path sampled kept
    · have absent : after.disk.now path = none := by
        rw [same]
        exact Option.not_isSome_iff_eq_none.mp (by simp [gone])
      exact (more.there path sampled).mpr absent
  refine found.context.bind fun found now here => ?_
  obtain ⟨sound, kept, absent⟩ := here
  cases found with
  | true => exact .pure fun later more => Made.others ⟨sound, kept rfl⟩ sampled more
  | false =>
      have dirs : SaveKeeps zstd sample (fun _ now => Sound zstd now ∧ now.disk.now path = none)
          (call (.mkdirs path.dir)) now := by
        refine quiet_call sound (fun _ _ => rfl) (by simp [DiskOp.touches])
          fun between moved _ after performed quiet _ later more => ?_
        refine ⟨more.sound (quiet.sound (moved.sound sound)), (more.there path sampled).mpr ?_⟩
        have gone := (moved.there path sampled).mpr (absent rfl)
        exact (quiet.spared path (.inl sampled)).now.trans gone
      exact dirs.context.bind fun _ _ there =>
        (writeNew_safe sampled ⟨there.1, there.2, rfl⟩).bind fun _ _ preparing =>
          linkNew_safe sampled given preparing id decoded

/-- **A save** of one file is safe, and makes it. -/
theorem writeRawPlainSampleCreateOnce_safe {json : String} (lawful : zstd.Lawful)
    (sampled : isSample path) (given : sample.json path = some json) (sound : Sound zstd shelf) :
    SaveKeeps zstd sample (fun _ => Made zstd path) (writeRawPlainSampleCreateOnce zstd path json)
      shelf := by
  have compressed : SaveKeeps zstd sample (fun compressed now => Sound zstd now ∧
      zstd.compress (asBytes json) = .ok compressed)
      (lift (Foundation.context s!"compress raw sample {path.display}"
        (zstd.compress (asBytes json)))) shelf :=
    .lift (fun compressed result now moved => ⟨moved.sound sound, context_eq_ok.mp result⟩)
      fun now moved => moved.sound sound
  exact compressed.bind fun bytes now here =>
    writeFileCreateOnceAtomically_safe sampled given here.1 (lawful.plainId _ _ here.2)
      (lawful.decodeAll _ _ here.2)

end Save

section Saved

variable {sample : Sample} {shelf : Shelf}

/-- The path of a match is that of a sample. -/
theorem Sample.matchPath_isSample (sample : Sample) : isSample sample.matchPath :=
  samplePath_isSample _ _ (.inl rfl)

/-- The path of a timeline is that of a sample. -/
theorem Sample.timelinePath_isSample (sample : Sample) : isSample sample.timelinePath :=
  samplePath_isSample _ _ (.inr rfl)

/-- A match and its timeline have different paths. -/
theorem Sample.paths_ne (sample : Sample) : sample.timelinePath ≠ sample.matchPath := by
  intro same
  have names : sample.matchId ++ "." ++ "timeline" ++ ".json.zst" =
      sample.matchId ++ "." ++ "match" ++ ".json.zst" := congrArg Path.name same
  have lists := congrArg String.toList names
  simp at lists

/-- What is saved at the path of the match. -/
theorem Sample.json_match (sample : Sample) :
    sample.json sample.matchPath = some sample.matchJson := if_pos rfl

/-- What is saved at the path of the timeline. -/
theorem Sample.json_timeline (sample : Sample) :
    sample.json sample.timelinePath = sample.timelineJson := by
  rw [Sample.json, if_neg sample.paths_ne, if_pos rfl]

/-- What a save makes is there to stay. -/
structure AllMade (zstd : Zstd) (sample : Sample) (shelf : Shelf) : Prop where
  sound : Sound zstd shelf
  keeps : ∀ path, (sample.json path).isSome → shelf.disk.Keeps path

/-- **A save** keeps the shelf sound at every operation, and once it returns the sample is made. -/
theorem saveRawSample_safe (lawful : zstd.Lawful) (sound : Sound zstd shelf) :
    SaveKeeps zstd sample (fun _ => AllMade zstd sample) (saveRawSample zstd sample) shelf := by
  have all : ∀ {now : Shelf}, Sound zstd now → now.disk.Keeps sample.matchPath →
      (∀ json, sample.timelineJson = some json → now.disk.Keeps sample.timelinePath) →
        AllMade zstd sample now := by
    refine fun sound first second => ⟨sound, fun path given => ?_⟩
    obtain ⟨json, given⟩ := Option.isSome_iff_exists.mp given
    by_cases same : path = sample.matchPath
    · exact same ▸ first
    · by_cases same' : path = sample.timelinePath
      · subst same'
        exact second json (sample.json_timeline ▸ given)
      · simp [Sample.json, same, same'] at given
  have dirs : SaveKeeps zstd sample (fun _ => Sound zstd)
      (call (.mkdirs (rawDir ++ [sample.platform]))) shelf :=
    quiet_call sound (fun _ _ => rfl) (by simp [DiskOp.touches])
      fun _ moved _ _ _ quiet _ _ more => more.sound (quiet.sound (moved.sound sound))
  refine dirs.bind fun _ _ here => (writeRawPlainSampleCreateOnce_safe lawful
    sample.matchPath_isSample sample.json_match here).bind fun _ now made => ?_
  have given := sample.json_timeline
  cases timeline : sample.timelineJson with
  | none =>
      refine .pure fun later more => ?_
      have kept := made.others sample.matchPath_isSample more
      exact all kept.sound kept.keeps (by simp [timeline])
  | some json =>
      have second : SaveKeeps zstd sample (fun _ => Made zstd sample.timelinePath)
          (writeRawPlainSampleCreateOnce zstd sample.timelinePath json) now :=
        writeRawPlainSampleCreateOnce_safe lawful sample.timelinePath_isSample
          (given.trans timeline) made.sound
      refine (second.frame (fun _ _ moved => moved.keeps _ sample.matchPath_isSample)
        (fun _ _ moved => moved.keeps _ sample.matchPath_isSample) made.keeps).weaken
        (fun _ later kept => ?_) fun _ here => here
      exact all kept.1.sound kept.2 fun _ _ => kept.1.keeps

end Saved

end LolCrawler.Raw
