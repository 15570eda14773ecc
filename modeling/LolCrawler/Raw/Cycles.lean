import Mathlib.Data.PNat.Defs
import LolCrawler.Raw.Saves

/-! # What a cycle of the recompactor keeps

While a save goes on beside it, a cycle writes the dictionary down before it needs it, and
replaces a frame only by one that tells the same JSON. Any of its operations may fail.
-/

namespace LolCrawler.Raw

open Foundation Script

variable {zstd : Zstd}

section Cycle

/-- The operations of a cycle, if it takes no dictionary as it is before its directory is synced. -/
def sureRecompacting : Surroundings DiskOp DiskOp.Answer Shelf :=
  fun op shelf answer after => recompacting op shelf answer after ∧
    (op = .read dictPath → shelf.disk.Synced dictPath)

/-- A part of a cycle that a save does not disturb. -/
abbrev CycleKeeps {α : Type} (zstd : Zstd) (ends : α → Shelf → Prop) (fails : Shelf → Prop) :
    Io α → Shelf → Prop :=
  Safe sureRecompacting (Saves zstd) (Recompacts zstd) ends fails

/-- What a save does not end, and what happens to other files does not either. -/
structure Robust (zstd : Zstd) (keep : Shelf → Prop) : Prop where
  saves : ∀ before after, Saves zstd before after → keep before → keep after
  quiet : ∀ before after, Quiet before after → keep before → keep after

variable {shelf before now after : Shelf} {path : Path} {keep : Shelf → Prop}

/-- An operation on temporary files of the recompactor. -/
theorem recompacting_quiet {op : DiskOp} {answer : Option op.Answer}
    (asked : recompacting op before answer after)
    (only : ∀ name ∈ op.touches, ∃ other, Lasting other ∧ name = tmpPath other) :
    Quiet before after ∧ Recompacts zstd before after := by
  have spared : ∀ other, other ∉ op.touches → before.disk.Spared after.disk other := by
    intro other apart
    cases answer with
    | none => exact asked.2.spared apart
    | some found => exact DiskOp.Performs.spared asked.2 apart
  have quiet : Quiet before after := by
    refine ⟨asked.1, fun other lasting => spared other fun touched => ?_⟩
    obtain ⟨tmp, -, rfl⟩ := only other touched
    exact lasting.ne_tmp rfl
  refine ⟨quiet, quiet.recompacts fun other => (spared _ fun touched => ?_).now⟩
  obtain ⟨tmp, lasting, same⟩ := only _ touched
  exact tmp_ne_writeTmp lasting same.symm

/-- One operation on temporary files. What it is good for must survive a save. -/
theorem cycle_call {op : DiskOp} {ends : op.Answer → Shelf → Prop} (robust : Robust zstd keep)
    (holds : keep shelf)
    (only : ∀ name ∈ op.touches, ∃ other, Lasting other ∧ name = tmpPath other)
    (found : ∀ now, Saves zstd shelf now → ∀ answer after, op.Performs now.disk answer after.disk →
      (op = .read dictPath → now.disk.Synced dictPath) → keep after →
        ∀ later, Saves zstd after later → keep later → ends answer later) :
    CycleKeeps zstd ends keep (call op) shelf := by
  refine Safe.perform fun now moved answer after asked => ?_
  obtain ⟨asked, sure⟩ := asked
  obtain ⟨quiet, recompacts⟩ := recompacting_quiet asked only
  have kept := robust.quiet _ _ quiet (robust.saves _ _ moved holds)
  refine ⟨recompacts, fun later more => ?_⟩
  have here := robust.saves _ _ more kept
  cases answer with
  | none => exact here
  | some answer => exact found now moved answer after asked.2 sure kept later more here

/-- The next operation on a temporary file. -/
theorem tmp_call {op : DiskOp} {tmp tmp' : Option DiskFile} (robust : Robust zstd keep)
    (lasting : Lasting path) (holds : keep shelf) (here : shelf.disk.now (tmpPath path) = tmp)
    (only : ∀ name ∈ op.touches, name = tmpPath path)
    (does : ∀ disk answer next, op.Performs disk answer next →
      disk.now (tmpPath path) = tmp → next.now (tmpPath path) = tmp') :
    CycleKeeps zstd (fun _ now => keep now ∧ now.disk.now (tmpPath path) = tmp') keep (call op)
      shelf := by
  refine cycle_call robust holds (fun name inside => ⟨path, lasting, only name inside⟩)
    fun now moved answer after performed _ _ later more kept => ⟨kept, ?_⟩
  rw [more.tmp path lasting]
  exact does _ _ _ performed ((moved.tmp path lasting).trans here)

/-- A temporary file is written safely. -/
theorem writeTmp_safe {bytes : Bytes} (robust : Robust zstd keep) (lasting : Lasting path)
    (holds : keep shelf) :
    CycleKeeps zstd
      (fun _ now => keep now ∧ now.disk.now (tmpPath path) = some ⟨bytes, bytes.length⟩) keep
      (writeTmp (tmpPath path) bytes) shelf := by
  have removed : CycleKeeps zstd (fun _ now => keep now ∧ now.disk.now (tmpPath path) = none) keep
      (call (.remove (tmpPath path))) shelf := by
    refine tmp_call robust lasting holds rfl (by simp [DiskOp.touches]) ?_
    rintro disk _ next rfl -
    exact Function.update_self _ _ _
  have created : ∀ {now : Shelf}, keep now ∧ now.disk.now (tmpPath path) = none →
      CycleKeeps zstd (fun _ now => keep now ∧ now.disk.now (tmpPath path) = some ⟨[], 0⟩) keep
        (call (.create (tmpPath path))) now := by
    intro now here
    refine tmp_call robust lasting here.1 here.2 (by simp [DiskOp.touches]) ?_
    rintro disk _ next rfl -
    exact Function.update_self _ _ _
  have written : ∀ {now : Shelf}, keep now ∧ now.disk.now (tmpPath path) = some ⟨[], 0⟩ →
      CycleKeeps zstd (fun _ now => keep now ∧ now.disk.now (tmpPath path) = some ⟨bytes, 0⟩) keep
        (call (.write (tmpPath path) bytes)) now := by
    intro now here
    refine tmp_call robust lasting here.1 here.2 (by simp [DiskOp.touches]) ?_
    rintro disk _ next ⟨file, found, rfl⟩ tmp
    cases found.symm.trans tmp
    exact Function.update_self _ _ _
  have synced : ∀ {now : Shelf}, keep now ∧ now.disk.now (tmpPath path) = some ⟨bytes, 0⟩ →
      CycleKeeps zstd
        (fun _ now => keep now ∧ now.disk.now (tmpPath path) = some ⟨bytes, bytes.length⟩) keep
        (call (.sync (tmpPath path))) now := by
    intro now here
    refine tmp_call robust lasting here.1 here.2 (by simp [DiskOp.touches]) ?_
    rintro disk _ next ⟨file, found, rfl⟩ tmp
    cases found.symm.trans tmp
    exact Function.update_self _ _ _
  exact removed.context.bind fun _ _ here => (created here).context.bind fun _ _ here =>
    (written here).bind fun _ _ here => (synced here).context

/-- An operation that leaves all names alone. -/
theorem still_call {op : DiskOp} (robust : Robust zstd keep) (holds : keep shelf)
    (still : op.touches = []) : CycleKeeps zstd (fun _ => keep) keep (call op) shelf :=
  cycle_call robust holds (by simp [still]) fun _ _ _ _ _ _ _ _ _ kept => kept

/-- A value is safe. -/
theorem pure_safe {α : Type} {value : α} (robust : Robust zstd keep) (holds : keep shelf) :
    CycleKeeps zstd (fun _ => keep) keep (pure value) shelf :=
  .pure fun _ more => robust.saves _ _ more holds

/-- A lifted result is safe. -/
theorem lift_safe {α : Type} {result : Except Error α} (robust : Robust zstd keep)
    (holds : keep shelf) :
    CycleKeeps zstd (fun value now => keep now ∧ result = .ok value) keep (lift result) shelf :=
  .lift (fun _ same _ more => ⟨robust.saves _ _ more holds, same⟩)
    fun _ more => robust.saves _ _ more holds

/-- An attempt of what is safe is safe. -/
theorem attempt_safe {α : Type} {script : Io α} (safe : CycleKeeps zstd (fun _ => keep) keep
      script shelf) : CycleKeeps zstd (fun _ => keep) keep (attempt script) shelf :=
  .attempt (safe.weaken (fun _ _ here => here) fun _ here _ => here)

/-- Asking for the age of a file is safe. -/
theorem fileMtimeOlderThan_safe (robust : Robust zstd keep) (holds : keep shelf) :
    CycleKeeps zstd (fun _ => keep) keep (fileMtimeOlderThan path) shelf := by
  have asked : CycleKeeps zstd (fun _ => keep) keep (call (.older path)) shelf :=
    still_call robust holds rfl
  refine (attempt_safe asked).bind fun result now here => ?_
  cases result with
  | ok old => exact pure_safe robust here
  | error err => exact pure_safe robust here

/-- Reading the samples to train on is safe. -/
theorem trainingLoop_safe (robust : Robust zstd keep) {paths : List Path} {samples : List Bytes}
    (holds : keep shelf) :
    CycleKeeps zstd (fun _ => keep) keep (trainingLoop zstd paths samples) shelf := by
  induction paths generalizing shelf samples with
  | nil => exact pure_safe robust holds
  | cons path paths ih =>
      unfold trainingLoop
      split
      · exact pure_safe robust holds
      · refine (fileMtimeOlderThan_safe robust holds).bind fun old now here => ?_
        cases old with
        | false => exact ih here
        | true =>
            have read : CycleKeeps zstd (fun _ => keep) keep (call (.read path)) now :=
              still_call robust here rfl
            refine (attempt_safe read).bind fun result later there => ?_
            split
            · split
              · exact ih there
              · split
                · exact ih there
                · exact ih there
            · exact ih there

/-- The training is safe. -/
theorem trainRawSampleDict_safe (robust : Robust zstd keep) {paths : List Path}
    (holds : keep shelf) :
    CycleKeeps zstd (fun _ => keep) keep (trainRawSampleDict zstd paths) shelf := by
  refine (trainingLoop_safe robust holds).bind fun samples now here => ?_
  split
  · exact pure_safe robust here
  · exact (lift_safe robust here).bind fun dict _ here => (lift_safe robust here.1).bind
      fun _ _ here => (lift_safe robust here.1).bind fun _ _ here => pure_safe robust here.1

end Cycle

/-! ## Upgrading a sample -/

section Upgrade

variable {shelf before after : Shelf} {path : Path} {dict : Bytes}

/-- The dictionary is written down. -/
structure Equipped (zstd : Zstd) (dict : Bytes) (shelf : Shelf) : Prop where
  sound : Sound zstd shelf
  held : Held shelf.disk dict

/-- A dictionary that is written down stays so. -/
theorem Equipped.robust : Robust zstd (Equipped zstd dict) where
  saves _ _ moved here := ⟨moved.sound here.sound, here.held.spared moved.dict⟩
  quiet _ _ quiet here := ⟨quiet.sound here.sound, here.held.spared (quiet.spared _ (.inr rfl))⟩

/-- The sample is this frame. -/
structure Upgrading (zstd : Zstd) (dict frame : Bytes) (path : Path) (shelf : Shelf) :
    Prop where
  equipped : Equipped zstd dict shelf
  there : shelf.disk.look path = some frame

/-- A sample that is being upgraded stays the frame that was read. -/
theorem Upgrading.robust {frame : Bytes} (sampled : isSample path) :
    Robust zstd (Upgrading zstd dict frame path) where
  saves before after moved here := by
    refine ⟨Equipped.robust.saves _ _ moved here.equipped, ?_⟩
    have there : before.disk.now path ≠ none := by
      intro gone
      have found := here.there
      rw [Disk.look, gone] at found
      cases found
    rw [Disk.look, (moved.there path sampled there).1]
    exact here.there
  quiet before after quiet here := by
    refine ⟨Equipped.robust.quiet _ _ quiet here.equipped, ?_⟩
    rw [Disk.look, (quiet.spared path (.inl sampled)).now]
    exact here.there

/-- Another frame of the same JSON takes the place of a sample. -/
theorem replaced {file : DiskFile} {frame : Bytes} {tmp : Path} (sampled : isSample path)
    (sound : Sound zstd before) (there : before.disk.look path = some frame)
    (whole : file.Whole) (lasting : Lasting tmp) (linked : after.linked = before.linked)
    (renamed : after.disk = (before.disk.rename path (some file)).rename (tmpPath tmp) none)
    (same : ∀ json, Tells zstd before.disk frame json → Tells zstd before.disk file.bytes json) :
    Recompacts zstd before after ∧ before.disk.Spared after.disk dictPath := by
  have fresh : path ≠ tmpPath tmp := Lasting.ne_tmp (.inl sampled)
  have spared : ∀ other, other ≠ path → other ≠ tmpPath tmp →
      before.disk.Spared after.disk other := by
    intro other apart apart'
    rw [renamed]
    exact (Disk.Spared.of_rename _ apart _).trans (.of_rename _ apart' _)
  have now : after.disk.now path = some file := by
    rw [renamed, Disk.rename_now_of_ne _ fresh, Disk.rename_now_self]
  have past : after.disk.past path = before.disk.entries path := by
    rw [renamed, Disk.rename_past_of_ne _ fresh, Disk.rename_past_self]
  have dictionary : before.disk.Spared after.disk dictPath := by
    refine spared _ (fun here => ?_) (Lasting.ne_tmp (.inr rfl))
    cases dictPath_not_isSample.symm.trans (here ▸ sampled)
  have held : ∀ dict, Held before.disk dict → Held after.disk dict :=
    fun dict held => held.spared dictionary
  obtain ⟨old, present, bytes⟩ := Option.map_eq_some_iff.mp there
  have known : some old ∈ before.disk.entries path := List.mem_cons.mpr (.inl present.symm)
  have apart : ∀ other, isSample other → other ≠ path → before.disk.Spared after.disk other :=
    fun other sampled' other_ne => spared other other_ne (Lasting.ne_tmp (.inl sampled'))
  refine ⟨⟨fun _ => ⟨fun other sampled' entry inside => ?_, fun other sampled' gone => ?_,
      fun entry inside => ?_⟩, linked, fun other sampled' => ?_, fun other sampled' kept => ?_,
      fun dict here => ?_, fun other => ?_⟩, dictionary⟩
  · by_cases here : other = path
    · subst here
      rw [Disk.entries, now, past] at inside
      rcases List.mem_cons.mp inside with new | inside
      · cases new
        obtain ⟨-, json, told, tells⟩ := sound.told other sampled' old known
        exact ⟨whole, json, by rw [linked, told], (same json (bytes ▸ tells)).mono held⟩
      · obtain ⟨whole', json, told, tells⟩ := sound.told other sampled' entry inside
        exact ⟨whole', json, by rw [linked, told], tells.mono held⟩
    · obtain ⟨whole', json, told, tells⟩ :=
        sound.told other sampled' entry ((apart other sampled' here).entries inside)
      exact ⟨whole', json, by rw [linked, told], tells.mono held⟩
  · by_cases here : other = path
    · subst here
      cases now.symm.trans gone
    · have kept := apart other sampled' here
      exact fun entry inside => sound.absent other sampled' (kept.now ▸ gone) entry
        (kept.past entry inside)
  · obtain ⟨whole', here⟩ := sound.dict entry (dictionary.entries inside)
    exact ⟨whole', dictionary.now.trans here⟩
  · by_cases here : other = path
    · subst here
      simp [now, present]
    · rw [(apart other sampled' here).now]
  · by_cases here : other = path
    · subst here
      refine ⟨by simp [now], fun gone => ?_⟩
      rw [past] at gone
      rcases List.mem_cons.mp gone with gone | gone
      · exact kept.1 gone.symm
      · exact kept.2 gone
    · exact (apart other sampled' here).keeps kept
  · rw [Disk.look, dictionary.now]
    exact here
  · refine (spared _ (fun here => ?_) fun here => ?_).now
    · exact Lasting.ne_writeTmp (.inl sampled) here.symm
    · exact tmp_ne_writeTmp lasting here.symm

/-- What the checks of a new frame say. -/
theorem recompress_ok {frame compressed : Bytes} {dictId : Nat}
    (result : recompress zstd path dict dictId frame = .ok compressed) :
    ∃ plain, zstd.decodeAll frame = .ok plain ∧ zstd.compressWith dict plain = .ok compressed := by
  obtain ⟨plain, decoded, result⟩ := bind_eq_ok.mp result
  obtain ⟨new, made, result⟩ := bind_eq_ok.mp result
  obtain ⟨-, -, result⟩ := bind_eq_ok.mp result
  obtain ⟨again, -, result⟩ := bind_eq_ok.mp result
  obtain ⟨-, -, result⟩ := bind_eq_ok.mp result
  cases result
  exact ⟨plain, context_eq_ok.mp (context_eq_ok.mp decoded), context_eq_ok.mp made⟩

/-- A dictionary with an id is one. -/
theorem rawDictId_ok {dictId : Nat} (result : rawDictId zstd dict = .ok dictId) :
    ∃ id, zstd.dictIdFromDict dict = some id := by
  unfold rawDictId at result
  cases known : zstd.dictIdFromDict dict with
  | none =>
      rw [known] at result
      cases result
  | some id => exact ⟨id, rfl⟩

/-- The new frame tells what the old one told. -/
theorem recompress_tells {disk : Disk} {frame compressed : Bytes} {dictId : Nat} {id : ℕ+}
    (lawful : zstd.Lawful) (held : Held disk dict) (known : zstd.dictIdFromDict dict = some id)
    (plainFrame : rawFrameDictId zstd frame = 0)
    (result : recompress zstd path dict dictId frame = .ok compressed) {json : String}
    (tells : Tells zstd disk frame json) : Tells zstd disk compressed json := by
  obtain ⟨plain, decoded, made⟩ := recompress_ok result
  cases tells with
  | plain _ decoded' =>
      cases decoded.symm.trans decoded'
      exact .dict held known (lawful.dictId _ _ _ _ made known) (lawful.decodeWith _ _ _ made)
  | dict _ _ id' _ =>
      rw [rawFrameDictId, id'] at plainFrame
      exact absurd plainFrame (Nat.ne_of_gt (PNat.pos _))

/-- The new frame takes the place of the old one. -/
theorem rename_safe {frame bytes : Bytes} (sampled : isSample path)
    (upgrading : Upgrading zstd dict frame path shelf)
    (tmp : shelf.disk.now (tmpPath path) = some ⟨bytes, bytes.length⟩)
    (same : ∀ disk json, Held disk dict → Tells zstd disk frame json → Tells zstd disk bytes json) :
    CycleKeeps zstd (fun _ => Equipped zstd dict) (Equipped zstd dict)
      (call (.rename (tmpPath path) path)) shelf := by
  refine Safe.perform fun now moved answer after asked => ?_
  have here := (Upgrading.robust sampled).saves _ _ moved upgrading
  obtain ⟨⟨linked, asked⟩, -⟩ := asked
  cases answer with
  | none =>
      have quiet : Quiet now after := ⟨linked, fun other _ => by
        rw [show after.disk = now.disk from asked]
        exact .refl _ _⟩
      refine ⟨quiet.recompacts fun _ => by rw [show after.disk = now.disk from asked],
        fun later more => ?_⟩
      exact Equipped.robust.saves _ _ more (Equipped.robust.quiet _ _ quiet here.equipped)
  | some _ =>
      obtain ⟨file, found, renamed⟩ := asked
      cases found.symm.trans ((moved.tmp path (.inl sampled)).trans tmp)
      obtain ⟨recompacts, dictionary⟩ := replaced sampled here.equipped.sound here.there
        (Nat.le_refl _) (.inl sampled) linked renamed
        (fun json tells => same _ json here.equipped.held tells)
      refine ⟨recompacts, fun later more => Equipped.robust.saves _ _ more ⟨?_, ?_⟩⟩
      · exact recompacts.sound here.equipped.sound
      · exact here.equipped.held.spared dictionary

/-- A sample is replaced safely by a frame that tells the same. -/
theorem replaceSample_safe {frame compressed : Bytes} (sampled : isSample path)
    (upgrading : Upgrading zstd dict frame path shelf)
    (same : ∀ disk json, Held disk dict → Tells zstd disk frame json →
      Tells zstd disk compressed json) :
    CycleKeeps zstd (fun _ => Equipped zstd dict) (Equipped zstd dict)
      (replaceSample path frame compressed) shelf := by
  have lasting : Lasting path := .inl sampled
  have robust : Robust zstd (Upgrading zstd dict frame path) := Upgrading.robust sampled
  have failed : ∀ now, Upgrading zstd dict frame path now → Equipped zstd dict now :=
    fun _ here => here.equipped
  refine ((writeTmp_safe robust lasting upgrading).weaken (fun _ _ here => here) failed).bind
    fun _ now here => ?_
  have reread : CycleKeeps zstd (fun _ now => Upgrading zstd dict frame path now ∧
      now.disk.now (tmpPath path) = some ⟨compressed, compressed.length⟩)
      (Upgrading zstd dict frame path) (call (.read path)) now := by
    refine tmp_call robust lasting here.1 here.2 (by simp [DiskOp.touches]) ?_
    rintro disk _ next ⟨-, rfl⟩ tmp
    exact tmp
  refine ((reread.weaken (fun _ _ here => here) failed).context).bind fun current now here => ?_
  split
  · have synced : ∀ {now : Shelf}, Equipped zstd dict now →
        CycleKeeps zstd (fun _ => Equipped zstd dict) (Equipped zstd dict)
          (call (.syncDir path.dir)) now := fun there => still_call Equipped.robust there rfl
    have renamed : CycleKeeps zstd (fun _ => Equipped zstd dict) (Equipped zstd dict)
        (renameOver (tmpPath path) path) now :=
      (rename_safe sampled here.1 here.2 same).context.bind fun _ _ there => (synced there).context
    exact renamed.bind fun _ _ there => pure_safe Equipped.robust there
  · have removed : CycleKeeps zstd (fun _ => Equipped zstd dict) (Equipped zstd dict)
        (call (.remove (tmpPath path))) now :=
      cycle_call Equipped.robust here.1.equipped
        (fun name inside => ⟨path, lasting, List.mem_singleton.mp inside⟩)
        fun _ _ _ _ _ _ _ _ _ there => there
    exact removed.context.bind fun _ _ there => pure_safe Equipped.robust there

/-- **A sample.** It may fail at any operation. -/
theorem recompactRawSamplePath_safe {dictId : Nat} (lawful : zstd.Lawful) (sampled : isSample path)
    (known : rawDictId zstd dict = .ok dictId) (equipped : Equipped zstd dict shelf) :
    CycleKeeps zstd (fun _ => Equipped zstd dict) (Equipped zstd dict)
      (recompactRawSamplePath zstd path dict dictId) shelf := by
  have read : CycleKeeps zstd (fun found now => Equipped zstd dict now ∧
      ∀ frame, found = some frame → Upgrading zstd dict frame path now) (Equipped zstd dict)
      (call (.read path)) shelf := by
    refine cycle_call Equipped.robust equipped (by simp [DiskOp.touches])
      fun now _ found after performed _ kept later more still => ⟨still, fun frame same => ?_⟩
    obtain ⟨rfl, disk⟩ := performed
    exact (Upgrading.robust sampled).saves _ _ more ⟨kept, by rw [disk, same]⟩
  refine read.context.bind fun found now here => ?_
  obtain ⟨equipped, upgrading⟩ := here
  cases found with
  | none => exact .fail fun later more => Equipped.robust.saves _ _ more equipped
  | some frame =>
      show CycleKeeps _ _ _ (if _ then _ else _) _
      split
      · exact pure_safe Equipped.robust equipped
      · next plainFrame =>
        obtain ⟨id, found⟩ := rawDictId_ok known
        have checked : CycleKeeps zstd (fun compressed now =>
            Upgrading zstd dict frame path now ∧
              recompress zstd path dict dictId frame = .ok compressed)
            (Upgrading zstd dict frame path) (lift (recompress zstd path dict dictId frame)) now :=
          lift_safe (Upgrading.robust sampled) (upgrading frame rfl)
        refine (checked.weaken (fun _ _ here => here) fun _ here => here.equipped).bind
          fun compressed now here => ?_
        exact replaceSample_safe sampled here.1 fun disk json held tells =>
          recompress_tells lawful held found (not_not.mp plainFrame) here.2 tells

/-- The samples are upgraded one by one, safely. -/
theorem upgradeLoop_safe {dictId : Nat} (lawful : zstd.Lawful) {paths : List Path}
    {outcome : RawSampleRecompactOutcome} (sampled : ∀ path ∈ paths, isSample path)
    (known : rawDictId zstd dict = .ok dictId) (equipped : Equipped zstd dict shelf) :
    CycleKeeps zstd (fun _ => Equipped zstd dict) (Equipped zstd dict)
      (upgradeLoop zstd dict dictId paths outcome) shelf := by
  induction paths generalizing shelf outcome with
  | nil => exact pure_safe Equipped.robust equipped
  | cons path paths ih =>
      have rest : ∀ path ∈ paths, isSample path :=
        fun path inside => sampled path (List.mem_cons_of_mem _ inside)
      refine (fileMtimeOlderThan_safe Equipped.robust equipped).bind fun old now here => ?_
      cases old with
      | false => exact ih rest here
      | true =>
          exact (attempt_safe (recompactRawSamplePath_safe lawful (sampled path List.mem_cons_self)
            known here)).bind fun _ _ there => ih rest there

/-- The upgrade of the samples is safe. -/
theorem upgradeRawSamples_safe (lawful : zstd.Lawful) {paths : List Path}
    {outcome : RawSampleRecompactOutcome} (sampled : ∀ path ∈ paths, isSample path)
    (equipped : Equipped zstd dict shelf) :
    CycleKeeps zstd (fun _ => Equipped zstd dict) (Equipped zstd dict)
      (upgradeRawSamples zstd dict paths outcome) shelf := by
  refine (lift_safe Equipped.robust equipped).bind fun dictId _ here => ?_
  exact (lift_safe Equipped.robust here.1).bind fun _ _ there =>
    upgradeLoop_safe lawful sampled (context_eq_ok.mp here.2) there.1

end Upgrade

/-! ## The dictionary -/

section Dictionary

variable {shelf before after : Shelf} {dict : Bytes}

/-- Samples stay sound. -/
theorem Sound.robust : Robust zstd (Sound zstd) where
  saves _ _ moved := moved.sound
  quiet _ _ quiet := quiet.sound

/-- There is no dictionary. -/
structure Bare (zstd : Zstd) (shelf : Shelf) : Prop where
  sound : Sound zstd shelf
  absent : shelf.disk.now dictPath = none

/-- What has no dictionary gets none from a save. -/
theorem Bare.robust : Robust zstd (Bare zstd) where
  saves _ _ moved here := ⟨moved.sound here.sound, moved.dict.now.trans here.absent⟩
  quiet _ _ quiet here :=
    ⟨quiet.sound here.sound, (quiet.spared dictPath (.inr rfl)).now.trans here.absent⟩

/-- Without a dictionary none is held. -/
theorem Bare.not_held (bare : Bare zstd shelf) : ¬Held shelf.disk dict := by
  intro held
  have found := held.1
  rw [Disk.look, bare.absent] at found
  cases found

/-- The dictionary has its name, but its directory is not synced. -/
structure Named (zstd : Zstd) (dict : Bytes) (shelf : Shelf) : Prop where
  sound : Sound zstd shelf
  there : shelf.disk.look dictPath = some dict

/-- A dictionary that has its name keeps it. -/
theorem Named.robust : Robust zstd (Named zstd dict) where
  saves _ _ moved here := ⟨moved.sound here.sound, by
    rw [Disk.look, moved.dict.now]
    exact here.there⟩
  quiet _ _ quiet here := ⟨quiet.sound here.sound, by
    rw [Disk.look, (quiet.spared dictPath (.inr rfl)).now]
    exact here.there⟩

/-- The dictionary is named for the first time. -/
theorem named {file : DiskFile} (bare : Bare zstd before) (whole : file.Whole)
    (linked : after.linked = before.linked)
    (renamed : after.disk =
      (before.disk.rename dictPath (some file)).rename (tmpPath dictPath) none) :
    Recompacts zstd before after ∧ Named zstd file.bytes after := by
  have lasting : Lasting dictPath := .inr rfl
  have fresh : dictPath ≠ tmpPath dictPath := lasting.ne_tmp
  have spared : ∀ other, other ≠ dictPath → other ≠ tmpPath dictPath →
      before.disk.Spared after.disk other := by
    intro other apart apart'
    rw [renamed]
    exact (Disk.Spared.of_rename _ apart _).trans (.of_rename _ apart' _)
  have samples : ∀ path, isSample path → before.disk.Spared after.disk path := by
    refine fun path sampled => spared path (fun here => ?_) (Lasting.ne_tmp (.inl sampled))
    cases dictPath_not_isSample.symm.trans (here ▸ sampled)
  have now : after.disk.now dictPath = some file := by
    rw [renamed, Disk.rename_now_of_ne _ fresh, Disk.rename_now_self]
  have past : after.disk.past dictPath = before.disk.entries dictPath := by
    rw [renamed, Disk.rename_past_of_ne _ fresh, Disk.rename_past_self]
  have sound : Sound zstd after := by
    refine ⟨fun path sampled entry inside => ?_, fun path sampled gone entry inside => ?_,
      fun entry inside => ?_⟩
    · obtain ⟨whole', json, told, tells⟩ :=
        bare.sound.told path sampled entry ((samples path sampled).entries inside)
      exact ⟨whole', json, by rw [linked, told], tells.mono fun _ held => (bare.not_held held).elim⟩
    · have kept := samples path sampled
      exact bare.sound.absent path sampled (kept.now ▸ gone) entry (kept.past entry inside)
    · rw [Disk.entries, now, past] at inside
      rcases List.mem_cons.mp inside with new | inside
      · cases new
        exact ⟨whole, now⟩
      · cases bare.absent.symm.trans (bare.sound.dict entry inside).2
  refine ⟨⟨fun _ => sound, linked, fun path sampled => by rw [(samples path sampled).now],
    fun path sampled => (samples path sampled).keeps, fun dict here => ?_, fun path => ?_⟩,
    sound, by rw [Disk.look, now]; rfl⟩
  · rw [Disk.look, bare.absent] at here
    cases here
  · exact (spared _ (fun here => lasting.ne_writeTmp here.symm)
      fun here => tmp_ne_writeTmp lasting here.symm).now

/-- The dictionary is written down safely. -/
theorem writeRawDictAtomically_safe (bare : Bare zstd shelf) :
    CycleKeeps zstd (fun _ => Equipped zstd dict) (Sound zstd)
      (writeRawDictAtomically dictPath dict) shelf := by
  have lasting : Lasting dictPath := .inr rfl
  have dirs : CycleKeeps zstd (fun _ => Bare zstd) (Bare zstd) (call (.mkdirs dictPath.dir))
      shelf := still_call Bare.robust bare rfl
  have renamed : ∀ {now : Shelf}, Bare zstd now ∧
      now.disk.now (tmpPath dictPath) = some ⟨dict, dict.length⟩ →
        CycleKeeps zstd (fun _ => Named zstd dict) (Sound zstd)
          (call (.rename (tmpPath dictPath) dictPath)) now := by
    refine fun {shelf} here => Safe.perform fun now moved answer after asked => ?_
    have bare := Bare.robust.saves _ _ moved here.1
    obtain ⟨⟨linked, asked⟩, -⟩ := asked
    cases answer with
    | none =>
        have quiet : Quiet now after := ⟨linked, fun other _ => by
          rw [show after.disk = now.disk from asked]
          exact .refl _ _⟩
        exact ⟨quiet.recompacts fun _ => by rw [show after.disk = now.disk from asked],
          fun later more => (Bare.robust.saves _ _ more (Bare.robust.quiet _ _ quiet bare)).sound⟩
    | some _ =>
        obtain ⟨file, found, same⟩ := asked
        cases found.symm.trans ((moved.tmp _ lasting).trans here.2)
        obtain ⟨recompacts, there⟩ := named bare (Nat.le_refl _) linked same
        exact ⟨recompacts, fun later more => Named.robust.saves _ _ more there⟩
  have synced : ∀ {now : Shelf}, Named zstd dict now →
      CycleKeeps zstd (fun _ => Equipped zstd dict) (Sound zstd)
        (call (.syncDir dictPath.dir)) now := by
    refine fun {shelf} here => Safe.perform fun now moved answer after asked => ?_
    obtain ⟨asked, -⟩ := asked
    obtain ⟨quiet, recompacts⟩ := recompacting_quiet asked (by simp [DiskOp.touches])
    refine ⟨recompacts, fun later more => ?_⟩
    have there := Named.robust.quiet _ _ quiet (Named.robust.saves _ _ moved here)
    cases answer with
    | none => exact more.sound there.sound
    | some _ =>
        have safe : after.disk.past dictPath = [] := by
          rw [show after.disk = now.disk.syncDir rawDir from asked.2]
          simp [Disk.syncDir, dictPath]
        exact Equipped.robust.saves _ _ more ⟨there.sound, there.there, by simp [safe]⟩
  have sound : ∀ now, Bare zstd now → Sound zstd now := fun _ here => here.sound
  exact (dirs.context.weaken (fun _ _ here => here) sound).bind fun _ _ here =>
    ((writeTmp_safe Bare.robust lasting here).weaken (fun _ _ here => here) sound).bind
      fun _ _ here => (renamed here).context.bind fun _ _ here => (synced here).context

end Dictionary

/-! ## The whole cycle -/

/-- What the cycle knows when it has looked for the dictionary. -/
def FoundDict (zstd : Zstd) : Option Bytes → Shelf → Prop
  | some dict, shelf => Equipped zstd dict shelf
  | none, shelf => Bare zstd shelf

/-- **A cycle.** The dictionary comes first. -/
theorem recompactRawSamplesAt_safe (lawful : zstd.Lawful) {shelf : Shelf}
    (sound : Sound zstd shelf) :
    CycleKeeps zstd (fun _ => Sound zstd) (Sound zstd) (recompactRawSamplesAt zstd) shelf := by
  have upgraded : ∀ {now : Shelf} {dict : Bytes} {paths : List Path}
      {outcome : RawSampleRecompactOutcome}, (∀ path ∈ paths, isSample path) →
        Equipped zstd dict now → CycleKeeps zstd (fun _ => Sound zstd) (Sound zstd)
          (upgradeRawSamples zstd dict paths outcome) now :=
    fun sampled equipped => (upgradeRawSamples_safe lawful sampled equipped).weaken
      (fun _ _ here => here.sound) fun _ here => here.sound
  have listed : CycleKeeps zstd (fun paths now => Sound zstd now ∧ ∀ path ∈ paths, isSample path)
      (Sound zstd) (call (.list isSample)) shelf :=
    cycle_call Sound.robust sound (by simp [DiskOp.touches])
      fun _ _ paths _ performed _ _ _ _ kept =>
        ⟨kept, fun path inside => (performed.1 path inside).1⟩
  refine listed.context.bind fun paths now here => ?_
  obtain ⟨sound, sampled⟩ := here
  split
  · exact pure_safe Sound.robust sound
  · have found : CycleKeeps zstd (FoundDict zstd) (Sound zstd) (call (.read dictPath)) now := by
      refine cycle_call Sound.robust sound (by simp [DiskOp.touches])
        fun now _ found after performed sure kept later more _ => ?_
      obtain ⟨rfl, disk⟩ := performed
      have synced := sure rfl
      rw [← disk] at synced ⊢
      cases there : after.disk.look dictPath with
      | some dict =>
          have present : after.disk.now dictPath ≠ none := by
            intro gone
            rw [Disk.look, gone] at there
            cases there
          exact Equipped.robust.saves _ _ more ⟨kept, there, synced present⟩
      | none => exact Bare.robust.saves _ _ more ⟨kept, Option.map_eq_none_iff.mp there⟩
    refine found.context.bind fun found now here => ?_
    cases found with
    | some dict => exact upgraded sampled here
    | none =>
        have bare : Bare zstd now := here
        have trained : CycleKeeps zstd (fun _ => Bare zstd) (Sound zstd)
            (trainRawSampleDict zstd paths) now :=
          (trainRawSampleDict_safe Bare.robust bare).weaken (fun _ _ here => here)
            fun _ here => here.sound
        refine trained.bind fun training now here => ?_
        obtain ⟨maybeDict, trainingSamples⟩ := training
        cases maybeDict with
        | none => exact pure_safe Sound.robust (Bare.sound here)
        | some dict =>
            exact (writeRawDictAtomically_safe here).bind fun _ _ here => upgraded sampled here

end LolCrawler.Raw
