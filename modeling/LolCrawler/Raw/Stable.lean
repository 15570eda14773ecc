import LolCrawler.Raw.Cycles

/-! # Raw samples are stable

The saves and the recompactor keep their promises to each other, and a crash leaves every
file whole. So a reader always finds the JSON of the save that linked the file. Once a
save has completed for it, the file is there to stay, and nothing else is ever linked in
its place.

This is so in every run of sure steps: no save takes a file that it finds for saved, and no
cycle a dictionary for written, before its directory is synced. A save or a cycle that fails
or whose process ends between the naming of a file and the sync of its directory leaves
such a name behind.
-/

namespace LolCrawler.Raw

open Foundation Script

variable {zstd : Zstd}

/-! ## After a crash -/

section Crash

variable {shelf : Shelf} {disk : Disk}

/-- After a crash there is no past. -/
theorem crash_past (crashed : shelf.disk.Crashed disk) (path : Path) : disk.past path = [] :=
  (crashed path).1

/-- A file that is kept is there after a crash. -/
theorem crash_keeps (crashed : shelf.disk.Crashed disk) {path : Path}
    (kept : shelf.disk.Keeps path) : disk.Keeps path := by
  refine ⟨?_, by simp [crash_past crashed path]⟩
  obtain ⟨-, entry, inside, found⟩ := crashed path
  cases entry with
  | none =>
      rcases List.mem_cons.mp inside with here | here
      · exact (kept.1 here.symm).elim
      · exact (kept.2 here).elim
  | some file =>
      obtain ⟨count, -, there⟩ := found
      simp [there]

/-- A dictionary that is held is held after a crash. -/
theorem crash_held (crashed : shelf.disk.Crashed disk) (sound : Sound zstd shelf) {dict : Bytes}
    (held : Held shelf.disk dict) : Held disk dict := by
  refine ⟨?_, by simp [crash_past crashed dictPath]⟩
  obtain ⟨file, there, rfl⟩ := Option.map_eq_some_iff.mp held.1
  rcases crashed.now fun file inside => (sound.dict file inside).1 with
    ⟨-, gone⟩ | ⟨left, inside, now⟩
  · rcases List.mem_cons.mp gone with gone | gone
    · cases gone.trans there
    · exact (held.2 gone).elim
  · cases (sound.dict left inside).2.symm.trans there
    rw [Disk.look, now]
    rfl

/-- **A crash.** What is left is sound, and nobody is in the middle of anything. -/
theorem crash_sound (crashed : shelf.disk.Crashed disk) (sound : Sound zstd shelf) :
    Sound zstd ⟨disk, shelf.linked⟩ := by
  have past := crash_past crashed
  refine ⟨fun path sampled file inside => ?_, fun path _ _ entry inside => ?_,
    fun file inside => ?_⟩
  · rcases crashed.now fun file inside => (sound.told path sampled file inside).1 with
      ⟨gone, -⟩ | ⟨left, known, now⟩
    · simp [Disk.entries, gone, past] at inside
    · obtain rfl : file = ⟨left.bytes, left.bytes.length⟩ := by
        simpa [Disk.entries, now, past] using inside
      obtain ⟨-, json, told, tells⟩ := sound.told path sampled left known
      exact ⟨Nat.le_refl _, json, told, tells.mono fun _ held => crash_held crashed sound held⟩
  · rw [past] at inside
    cases inside
  · rcases crashed.now fun file inside => (sound.dict file inside).1 with ⟨gone, -⟩ | ⟨left, -, now⟩
    · simp [Disk.entries, gone, past] at inside
    · obtain rfl : file = ⟨left.bytes, left.bytes.length⟩ := by
        simpa [Disk.entries, now, past] using inside
      exact ⟨Nat.le_refl _, now⟩

end Crash

/-! ## Every run -/

/-- The save that goes on keeps its promises. -/
def SaverHolds (zstd : Zstd) (shelf : Shelf) : Option (Sample × Io Unit) → Prop
  | none => Sound zstd shelf
  | some (sample, script) => SaveKeeps zstd sample (fun _ => AllMade zstd sample) script shelf

/-- So does the cycle that goes on. -/
def CycleHolds (zstd : Zstd) (shelf : Shelf) : Option (Io RawSampleRecompactOutcome) → Prop
  | none => Sound zstd shelf
  | some script => CycleKeeps zstd (fun _ => Sound zstd) (Sound zstd) script shelf

/-- A save goes on undisturbed by the recompaction. -/
theorem SaverHolds.others {before after : Shelf} {saver : Option (Sample × Io Unit)}
    (holds : SaverHolds zstd before saver) (moved : Recompacts zstd before after) :
    SaverHolds zstd after saver := by
  cases saver with
  | none => exact moved.sound holds
  | some saver => exact Safe.others holds moved

/-- A recompaction goes on undisturbed by a save. -/
theorem CycleHolds.others {before after : Shelf} {script : Option (Io RawSampleRecompactOutcome)}
    (holds : CycleHolds zstd before script) (moved : Saves zstd before after) :
    CycleHolds zstd after script := by
  cases script with
  | none => exact moved.sound holds
  | some script => exact Safe.others holds moved

/-- What holds between any two steps. -/
structure RawState.Holds (zstd : Zstd) (state : RawState) : Prop where
  sound : Sound zstd state.shelf
  cached : ∀ dict, state.cache dictPath = some dict → state.shelf.disk.look dictPath = some dict
  saver : SaverHolds zstd state.shelf state.saver
  recompactor : CycleHolds zstd state.shelf state.recompactor
  completed : ∀ path, state.completed path ≠ none → isSample path ∧ state.shelf.disk.Keeps path

/-- The fresh state holds. -/
theorem fresh_holds (zstd : Zstd) : RawState.fresh.Holds zstd := by
  have nothing : ∀ path file, some file ∉ RawState.fresh.shelf.disk.entries path := by
    simp [RawState.fresh, Disk.entries, Disk.empty]
  have sound : Sound zstd RawState.fresh.shelf := by
    refine ⟨fun path _ file inside => (nothing path file inside).elim, fun _ _ _ _ inside => ?_,
      fun file inside => (nothing _ file inside).elim⟩
    cases inside
  refine ⟨sound, fun dict here => ?_, sound, sound, fun _ done => (done rfl).elim⟩
  cases here

section Steps

variable {state next : RawState} {path : Path}

/-- What is saved is saved at the path of a sample. -/
theorem Sample.isSample_of_json {sample : Sample} (given : (sample.json path).isSome) :
    isSample path := by
  unfold Sample.json at given
  split at given
  · next same => exact same ▸ sample.matchPath_isSample
  · split at given
    · next same => exact same ▸ sample.timelinePath_isSample
    · cases given

/-- A save that is under way keeps its promise. -/
theorem RawState.Holds.saving {sample : Sample} {script : Io Unit} (holds : state.Holds zstd)
    (going : state.saver = some (sample, script)) :
    SaveKeeps zstd sample (fun _ => AllMade zstd sample) script state.shelf := by
  have safe := holds.saver
  rwa [going] at safe

/-- A recompaction that is under way keeps its promise. -/
theorem RawState.Holds.cycle {script : Io RawSampleRecompactOutcome} (holds : state.Holds zstd)
    (going : state.recompactor = some script) :
    CycleKeeps zstd (fun _ => Sound zstd) (Sound zstd) script state.shelf := by
  have safe := holds.recompactor
  rwa [going] at safe

/-- The state holds after a save's operation. -/
theorem RawState.Holds.saves {shelf : Shelf} (holds : state.Holds zstd)
    (moved : Saves zstd state.shelf shelf) {saver : Option (Sample × Io Unit)}
    (going : SaverHolds zstd shelf saver) :
    RawState.Holds zstd { state with shelf := shelf, saver := saver } where
  sound := moved.sound holds.sound
  cached dict here := by
    rw [Disk.look, moved.dict.now]
    exact holds.cached dict here
  saver := going
  recompactor := holds.recompactor.others moved
  completed path done := by
    obtain ⟨sampled, kept⟩ := holds.completed path done
    exact ⟨sampled, moved.keeps path sampled kept⟩

/-- The state holds after a recompactor's operation. -/
theorem RawState.Holds.recompacts {shelf : Shelf} (holds : state.Holds zstd)
    (moved : Recompacts zstd state.shelf shelf)
    {recompactor : Option (Io RawSampleRecompactOutcome)}
    (going : CycleHolds zstd shelf recompactor) :
    RawState.Holds zstd { state with shelf := shelf, recompactor := recompactor } where
  sound := moved.sound holds.sound
  cached dict here := moved.look dict (holds.cached dict here)
  saver := holds.saver.others moved
  recompactor := going
  completed path done := by
    obtain ⟨sampled, kept⟩ := holds.completed path done
    exact ⟨sampled, moved.keeps path sampled kept⟩

/-- A sure step of a save is one of a save that takes no file as it is. -/
theorem RawState.Sure.saves {sample : Sample} {script rest : Io Unit} {shelf : Shelf}
    (sure : state.Sure .saver) (going : state.saver = some (sample, script))
    (moved : script.Moves (Raw.saving sample) state.shelf rest shelf) :
    script.Moves (sureSaving sample) state.shelf rest shelf := by
  cases script with
  | done value => exact moved.elim
  | fail err => exact moved.elim
  | ask op rest =>
      obtain ⟨answer, asked, same⟩ := moved
      refine ⟨answer, ⟨asked, fun path stat => ?_⟩, same⟩
      subst stat
      exact sure sample path rest going

/-- A step of a sure state is a sure step of the recompaction. -/
theorem RawState.Sure.recompacts {script rest : Io RawSampleRecompactOutcome} {shelf : Shelf}
    (sure : state.Sure .recompactor) (going : state.recompactor = some script)
    (moved : script.Moves recompacting state.shelf rest shelf) :
    script.Moves sureRecompacting state.shelf rest shelf := by
  cases script with
  | done value => exact moved.elim
  | fail err => exact moved.elim
  | ask op rest =>
      obtain ⟨answer, asked, same⟩ := moved
      refine ⟨answer, ⟨asked, fun read => ?_⟩, same⟩
      subst read
      exact sure rest going

/-- A reader keeps what it has read of the dictionary. -/
theorem readRawSampleFile_cache {look : Path → Option Bytes} {cache : Path → Option Bytes}
    (cached : ∀ dict, cache dictPath = some dict → look dictPath = some dict) {dict : Bytes}
    (found : (readRawSampleFile zstd look cache path).2 dictPath = some dict) :
    look dictPath = some dict := by
  have loaded : ∀ {bytes cache'},
      loadCachedRawDictForSample zstd look cache path = .ok (bytes, cache') →
        cache' dictPath = some dict → look dictPath = some dict := by
    intro bytes cache' result here
    unfold loadCachedRawDictForSample at result
    split at result
    · cases result
      exact cached dict here
    · obtain ⟨read, there, result⟩ := bind_eq_ok.mp result
      obtain ⟨_, -, result⟩ := bind_eq_ok.mp result
      cases result
      by_cases same : dictPath = dictPathForSample path
      · rw [← same] at here there
        cases (Function.update_self _ _ _).symm.trans here
        have there := context_eq_ok.mp there
        cases present : look dictPath with
        | none =>
            rw [present] at there
            cases there
        | some bytes =>
            rw [present] at there
            cases there
            rfl
      · rw [Function.update_of_ne same] at here
        exact cached dict here
  unfold readRawSampleFile at found
  simp only at found
  split at found
  · exact cached dict found
  · split at found
    · exact cached dict found
    · split at found
      · exact cached dict found
      · next result => exact loaded result found

/-- **One step** keeps the shelf sound and the scripts safe. -/
theorem SureStep.holds (lawful : zstd.Lawful) {event : RawEvent} (holds : state.Holds zstd)
    (step : SureStep zstd state event next) : next.Holds zstd := by
  obtain ⟨step, sure⟩ := step
  cases event with
  | save sample =>
      obtain ⟨-, rfl⟩ := step
      exact holds.saves (Std.Refl.refl _) (saveRawSample_safe lawful holds.sound)
  | saver =>
      obtain ⟨sample, script, rest, shelf, going, moved, rfl⟩ := step
      obtain ⟨saves, later⟩ := (holds.saving going).moves (sure.saves going moved)
      exact holds.saves saves later
  | saved =>
      obtain ⟨sample, going, rfl⟩ := step
      have made := (holds.saving going).ended
      have ended : RawState.Holds zstd { state with saver := none } :=
        holds.saves (Std.Refl.refl _) made.sound
      refine { ended with completed := fun path done => ?_ }
      cases before : state.completed path with
      | some json => exact holds.completed path (by simp [before])
      | none =>
          have given : (sample.json path).isSome := by
            simp only [before, Option.none_or, ne_eq] at done
            exact Option.isSome_iff_ne_none.mpr done
          exact ⟨Sample.isSample_of_json given, made.keeps path given⟩
  | saveFailed =>
      obtain ⟨sample, err, going, rfl⟩ := step
      exact holds.saves (Std.Refl.refl _) (holds.saving going).failed
  | recompact =>
      obtain ⟨-, rfl⟩ := step
      exact holds.recompacts (Std.Refl.refl _) (recompactRawSamplesAt_safe lawful holds.sound)
  | recompactor =>
      obtain ⟨script, rest, shelf, going, moved, rfl⟩ := step
      obtain ⟨recompacts, later⟩ := (holds.cycle going).moves (sure.recompacts going moved)
      exact holds.recompacts recompacts later
  | recompacted =>
      obtain ⟨finished, rfl⟩ := step
      refine holds.recompacts (Std.Refl.refl _) ?_
      rcases finished with ⟨outcome, going⟩ | ⟨err, going⟩
      · exact (holds.cycle going).ended
      · exact (holds.cycle going).failed
  | read path =>
      cases step
      exact { holds with cached := fun dict found => readRawSampleFile_cache holds.cached found }
  | ended =>
      cases step
      exact ⟨holds.sound, nofun, holds.sound, holds.sound, holds.completed⟩
  | crash =>
      obtain ⟨disk, crashed, rfl⟩ := step
      have sound := crash_sound crashed holds.sound
      exact ⟨sound, nofun, sound, sound, fun path done =>
        ⟨(holds.completed path done).1, crash_keeps crashed (holds.completed path done).2⟩⟩

/-- What the file tells does not change. -/
theorem SureStep.linked_eq {event : RawEvent} (holds : state.Holds zstd)
    (step : SureStep zstd state event next) (sampled : isSample path)
    (kept : state.shelf.disk.Keeps path) : next.shelf.linked path = state.shelf.linked path := by
  obtain ⟨step, sure⟩ := step
  cases event with
  | saver =>
      obtain ⟨sample, script, rest, shelf, going, moved, rfl⟩ := step
      have saves := ((holds.saving going).moves (sure.saves going moved)).1
      exact (saves.there path sampled kept.1).2
  | recompactor =>
      obtain ⟨script, rest, shelf, going, moved, rfl⟩ := step
      rw [((holds.cycle going).moves (sure.recompacts going moved)).1.linked]
  | save sample | recompact | recompacted =>
      obtain ⟨-, rfl⟩ := step
      rfl
  | saved =>
      obtain ⟨sample, -, rfl⟩ := step
      rfl
  | saveFailed =>
      obtain ⟨sample, err, -, rfl⟩ := step
      rfl
  | read _ | ended =>
      cases step
      rfl
  | crash =>
      obtain ⟨disk, -, rfl⟩ := step
      rfl

/-- A save that has completed has completed. -/
theorem RawStep.completed_ne {event : RawEvent} (step : RawStep zstd state event next)
    (done : state.completed path ≠ none) : next.completed path ≠ none := by
  cases event with
  | save sample | recompact | recompacted =>
      obtain ⟨-, rfl⟩ := step
      exact done
  | saver =>
      obtain ⟨sample, script, rest, shelf, -, -, rfl⟩ := step
      exact done
  | saved =>
      obtain ⟨sample, -, rfl⟩ := step
      obtain ⟨json, found⟩ := Option.ne_none_iff_exists'.mp done
      simp [found]
  | saveFailed =>
      obtain ⟨sample, err, -, rfl⟩ := step
      exact done
  | recompactor =>
      obtain ⟨script, rest, shelf, -, -, rfl⟩ := step
      exact done
  | read _ | ended =>
      cases step
      exact done
  | crash =>
      obtain ⟨disk, -, rfl⟩ := step
      exact done

end Steps

/-! ## What readers find -/

/-- The bytes of a text are those of the text. -/
theorem fromUtf8_asBytes (text : String) : fromUtf8 (asBytes text) = some text := by
  have bytes : (⟨(asBytes text).toArray⟩ : ByteArray) = text.toUTF8 := by simp [asBytes]
  rw [fromUtf8, bytes]
  exact dif_pos text.isValidUTF8

section Reading

variable {state : RawState} {path : Path}

/-- All samples share one dictionary. -/
theorem dictPathForSample_eq (sampled : isSample path) : dictPathForSample path = dictPath := by
  simp only [isSample, Bool.and_eq_true, decide_eq_true_eq] at sampled
  rw [dictPathForSample, sampled.1.1, dictPath]

/-- The dictionary is found, in the cache or on the disk. -/
theorem loadCachedRawDictForSample_ok {look cache : Path → Option Bytes} {dict : Bytes} {id : ℕ+}
    (sampled : isSample path) (there : look dictPath = some dict)
    (known : zstd.dictIdFromDict dict = some id)
    (cached : ∀ dict, cache dictPath = some dict → look dictPath = some dict) :
    ∃ cache', loadCachedRawDictForSample zstd look cache path = .ok (dict, cache') := by
  unfold loadCachedRawDictForSample
  rw [dictPathForSample_eq sampled]
  cases here : cache dictPath with
  | some dict' =>
      cases there.symm.trans (cached dict' here)
      exact ⟨cache, rfl⟩
  | none =>
      have found : readFile look dictPath = .ok dict := by
        rw [readFile, there]
        rfl
      have id : rawDictId zstd dict = .ok id := by
        rw [rawDictId, known]
        rfl
      simp only [found, ok_bind, id, context_ok]
      exact ⟨_, rfl⟩

/-- **What a reader finds.** A sample that is there is what the save gave that linked it. -/
theorem read_eq (holds : state.Holds zstd) (sampled : isSample path)
    (there : state.shelf.disk.now path ≠ none) :
    ∃ json, state.shelf.linked path = some json ∧ state.read zstd path = .ok json := by
  obtain ⟨file, present⟩ := Option.ne_none_iff_exists'.mp there
  obtain ⟨-, json, told, tells⟩ :=
    holds.sound.told path sampled file (List.mem_cons.mpr (.inl present.symm))
  refine ⟨json, told, ?_⟩
  have look : readFile state.shelf.disk.look path = .ok file.bytes := by
    rw [readFile, Disk.look, present]
    rfl
  unfold RawState.read readRawSample readRawSampleFile
  simp only [look]
  cases tells with
  | plain id decoded =>
      simp [rawFrameDictId, id, decompressRawPlainBytes, decoded, fromUtf8_asBytes, orBail]
  | @dict dict id held dictId frameId decoded =>
      obtain ⟨cache, loaded⟩ := loadCachedRawDictForSample_ok sampled held.1 dictId holds.cached
      simp [rawFrameDictId, frameId, loaded, rawDictId, dictId, orBail,
        decompressRawWithDictBytes, decoded, fromUtf8_asBytes]

end Reading

/-- Every state of a run holds. -/
theorem run_holds (lawful : zstd.Lawful) {state : RawState} {events : List RawEvent}
    (run : Run (SureStep zstd) .fresh events state) : state.Holds zstd :=
  run.invariant (RawState.Holds zstd) (fun _ _ _ holds step => step.holds lawful holds)
    (fresh_holds zstd)

/-- A sample that is there to stay. -/
theorem run_linked (lawful : zstd.Lawful) {state later : RawState} {events : List RawEvent}
    {path : Path} (run : Run (SureStep zstd) state events later) (holds : state.Holds zstd)
    (completed : state.completed path ≠ none) :
    later.Holds zstd ∧ later.completed path ≠ none ∧
      later.shelf.linked path = state.shelf.linked path := by
  refine run.invariant (fun now => now.Holds zstd ∧ now.completed path ≠ none ∧
    now.shelf.linked path = state.shelf.linked path) (fun now event next here step => ?_)
    ⟨holds, completed, rfl⟩
  obtain ⟨holds, completed, same⟩ := here
  obtain ⟨sampled, kept⟩ := holds.completed path completed
  exact ⟨step.holds lawful holds, step.1.completed_ne completed,
    (step.linked_eq holds sampled kept).trans same⟩

/-- **Raw samples are stable.** From the completion of the first save for a file on, every
reader finds the JSON of the save that linked the file. -/
theorem raw_samples_stable (lawful : zstd.Lawful) {state : RawState} {before : List RawEvent}
    {path : Path} (run : Run (SureStep zstd) .fresh before state)
    (completed : state.completed path ≠ none) :
    ∃ json, state.shelf.linked path = some json ∧
      ∀ after later, Run (SureStep zstd) state after later →
        later.shelf.linked path = some json ∧ later.read zstd path = .ok json := by
  have holds := run_holds lawful run
  obtain ⟨sampled, kept⟩ := holds.completed path completed
  obtain ⟨json, told, -⟩ := read_eq holds sampled kept.1
  refine ⟨json, told, fun after later rest => ?_⟩
  obtain ⟨holds', completed', same⟩ := run_linked lawful rest holds completed
  obtain ⟨found, told', read⟩ := read_eq holds' sampled (holds'.completed path completed').2.1
  cases told'.symm.trans (same.trans told)
  exact ⟨told', read⟩

/-! ## A save that is cut -/

/-- The first byte of a frame or of a dictionary, as an id. -/
def headId (bytes : Bytes) : Option ℕ+ :=
  match bytes with
  | [] => none
  | byte :: _ => if id : 0 < byte.toNat then some ⟨byte.toNat, id⟩ else none

/-- A library that puts a byte in front: the first byte of the dictionary, or zero. -/
def prefixing : Zstd where
  compress plain := .ok (0 :: plain)
  decodeAll frame := .ok frame.tail
  prepare _ := .ok ()
  compressWith dict plain := .ok (dict.headD 0 :: plain)
  decompressWith _ frame _ := .ok frame.tail
  decodeWith _ frame := .ok frame.tail
  dictIdFromFrame := headId
  dictIdFromDict := headId
  fromSamples _ _ := .ok [1]

/-- The compression that puts a prefix is lawful. -/
theorem prefixing_lawful : prefixing.Lawful where
  decodeAll plain frame made := by cases made; rfl
  plainId plain frame made := by cases made; rfl
  decodeWith dict plain frame made := by cases made; rfl
  dictId dict plain frame id made known := by
    cases made
    cases dict with
    | nil => cases known
    | cons byte dict => exact known

/-- A save that goes on alone. -/
def during (sample : Sample) (disk : Disk) (linked : Path → Option String) (script : Io Unit) :
    RawState :=
  ⟨⟨disk, linked⟩, fun _ => none, some (sample, script), none, fun _ => none⟩

/-- Nothing goes on. -/
def resting (disk : Disk) (linked completed : Path → Option String) : RawState :=
  ⟨⟨disk, linked⟩, fun _ => none, none, none, completed⟩

/-- An operation that is performed is a step of the save. -/
theorem during_step {zstd : Zstd} {sample : Sample} {disk : Disk}
    {linked : Path → Option String} {script : Io Unit} (op : DiskOp)
    {next : Option op.Answer → Io Unit} (after : Disk) (answer : op.Answer)
    (here : script = .ask op next) (performed : op.Performs disk answer after) :
    RawStep zstd (during sample disk linked script) .saver
      (during sample after (Shelf.note sample ⟨disk, linked⟩ op answer) (next (some answer))) := by
  subst here
  have moved : saving sample op ⟨disk, linked⟩ (some answer)
      ⟨after, Shelf.note sample ⟨disk, linked⟩ op answer⟩ := ⟨performed, rfl⟩
  exact ⟨sample, _, _, _, rfl, ⟨some answer, moved, rfl⟩, rfl⟩

/-- A step of the save is sure unless it looks for the file. -/
theorem during_sure {sample : Sample} {disk : Disk} {linked : Path → Option String}
    {script : Io Unit} {op : DiskOp} {next : Option op.Answer → Io Unit}
    (here : script = .ask op next) (synced : ∀ path, op = .stat path → disk.Synced path) :
    (during sample disk linked script).Sure .saver := by
  subst here
  intro other path rest going
  obtain ⟨-, same⟩ := Prod.mk.inj (Option.some.inj going)
  obtain ⟨stat, -⟩ := Script.ask.inj same
  exact synced path stat

/-- The match of all the saves here. -/
def sampleOf (json : String) : Sample := ⟨"EUW1", "EUW1_1", json, none⟩

def savedPath : Path := (sampleOf "").matchPath

def savedFrame : Bytes := 0 :: asBytes "[1]"

/-- The disk before the link of a save, which is the first. -/
def unlinkedDisk : Disk :=
  (((Disk.empty.rename (rawWriteTmpPath savedPath) none).rename (rawWriteTmpPath savedPath)
    (some ⟨[], 0⟩)).edit (rawWriteTmpPath savedPath) ⟨savedFrame, 0⟩).edit
      (rawWriteTmpPath savedPath) ⟨savedFrame, savedFrame.length⟩

/-- The disk after it. -/
def linkedDisk : Disk := unlinkedDisk.rename savedPath (some ⟨savedFrame, savedFrame.length⟩)

def linkedJson : Path → Option String := Function.update (fun _ => none) savedPath (some "[1]")

/-- No file has the name of the sample yet. -/
theorem unlinkedDisk_now : unlinkedDisk.now savedPath = none := by
  have apart : savedPath ≠ rawWriteTmpPath savedPath :=
    Lasting.ne_writeTmp (.inl (Sample.matchPath_isSample _))
  rw [unlinkedDisk, Disk.edit_now_of_ne _ apart, Disk.edit_now_of_ne _ apart,
    Disk.rename_now_of_ne _ apart, Disk.rename_now_of_ne _ apart]
  rfl

/-- A first save fails, a second one ends with its process, and a third one links its file. -/
theorem linked_run : ∃ events rest, Run (SureStep prefixing) .fresh events
    (during (sampleOf "[1]") linkedDisk linkedJson rest) := by
  let tmp := rawWriteTmpPath savedPath
  let script := saveRawSample prefixing (sampleOf "[1]")
  let started := during (sampleOf "[1]") .empty (fun _ => none) script
  have begun : SureStep prefixing .fresh (.save (sampleOf "[1]")) started := ⟨⟨rfl, rfl⟩, trivial⟩
  have refused : ∃ err, SureStep prefixing started .saver
      (during (sampleOf "[1]") .empty (fun _ => none) (.fail err)) := by
    have moved : saving (sampleOf "[1]") (.mkdirs savedPath.dir) ⟨.empty, fun _ => none⟩ none
        ⟨.empty, fun _ => none⟩ := ⟨rfl, rfl⟩
    refine ⟨_, ⟨sampleOf "[1]", script, _, _, rfl, ⟨none, moved, rfl⟩, rfl⟩, ?_⟩
    exact during_sure rfl fun _ stat => by cases stat
  obtain ⟨err, refused⟩ := refused
  have failed : SureStep prefixing (during (sampleOf "[1]") .empty (fun _ => none) (.fail err))
      .saveFailed .fresh := ⟨⟨_, err, rfl, rfl⟩, trivial⟩
  have ended : SureStep prefixing started .ended .fresh := ⟨rfl, trivial⟩
  have step : ∀ {disk linked script} (op : DiskOp) {next : Option op.Answer → Io Unit} (after)
      (answer : op.Answer), script = .ask op next → op.Performs disk answer after →
      (∀ path, op = .stat path → disk.Synced path) →
        SureStep prefixing (during (sampleOf "[1]") disk linked script) .saver
          (during (sampleOf "[1]") after
            (Shelf.note (sampleOf "[1]") ⟨disk, linked⟩ op answer) (next (some answer))) :=
    fun op _ after answer here performed synced =>
      ⟨during_step op after answer here performed, during_sure here synced⟩
  refine ⟨_, _, .cons begun <| .cons refused <| .cons failed <| .cons begun <| .cons ended <|
    .cons begun <|
    .cons (step (.mkdirs savedPath.dir) .empty () rfl rfl (by simp)) <|
    .cons (step (.stat savedPath) .empty false rfl ⟨rfl, rfl⟩ ?_) <|
    .cons (step (.mkdirs savedPath.dir) .empty () rfl rfl (by simp)) <|
    .cons (step (.remove tmp) _ () rfl rfl (by simp)) <|
    .cons (step (.createNew tmp) _ () rfl ⟨Disk.rename_now_self _ _ _, rfl⟩ (by simp)) <|
    .cons (step (.write tmp savedFrame) _ () rfl ⟨_, Disk.rename_now_self _ _ _, rfl⟩
      (by simp)) <|
    .cons (step (.sync tmp) _ () rfl ⟨_, Disk.edit_now_self _ _ _, rfl⟩ (by simp)) <|
    .cons (step (.link tmp savedPath) linkedDisk true rfl
      ⟨_, Disk.edit_now_self _ _ _, ?_, rfl⟩ (by simp)) <| .nil _⟩
  · exact fun _ _ there => (there rfl).elim
  · exact unlinkedDisk_now ▸ rfl

/-- The next save for the file finds it and completes. -/
theorem found_run {disk : Disk} {linked : Path → Option String}
    (there : disk.now savedPath ≠ none) :
    ∃ events, Run (RawStep prefixing) (resting disk linked fun _ => none) events
        (resting disk linked (sampleOf "[2]").json) ∧
      (disk.Synced savedPath → Run (SureStep prefixing) (resting disk linked fun _ => none) events
        (resting disk linked (sampleOf "[2]").json)) := by
  let script := saveRawSample prefixing (sampleOf "[2]")
  have begun : RawStep prefixing (resting disk linked fun _ => none) (.save (sampleOf "[2]"))
      (during (sampleOf "[2]") disk linked script) := ⟨rfl, rfl⟩
  have saved : RawStep prefixing (during (sampleOf "[2]") disk linked (.done ())) .saved
      (resting disk linked (sampleOf "[2]").json) :=
    ⟨sampleOf "[2]", rfl, by simp [during, resting]⟩
  have found : true = (disk.now savedPath).isSome := (Option.isSome_iff_ne_none.mpr there).symm
  have looked : ∃ rest next, rest = .ask (.stat savedPath) next ∧
      RawStep prefixing (during (sampleOf "[2]") disk linked script) .saver
        (during (sampleOf "[2]") disk linked rest) ∧
      RawStep prefixing (during (sampleOf "[2]") disk linked rest) .saver
        (during (sampleOf "[2]") disk linked (.done ())) :=
    ⟨_, _, rfl, during_step (.mkdirs savedPath.dir) disk () rfl rfl,
      during_step (.stat savedPath) disk true rfl ⟨found, rfl⟩⟩
  obtain ⟨rest, next, here, made, looked⟩ := looked
  refine ⟨_, .cons begun <| .cons made <| .cons looked <| .cons saved <| .nil _, fun synced => ?_⟩
  have sureMade : (during (sampleOf "[2]") disk linked script).Sure .saver :=
    @during_sure _ _ _ _ (.mkdirs savedPath.dir) _ rfl (by simp)
  have sureLooked : (during (sampleOf "[2]") disk linked rest).Sure .saver :=
    during_sure here fun path same => DiskOp.stat.inj same ▸ synced
  exact .cons ⟨begun, trivial⟩ <| .cons ⟨made, sureMade⟩ <| .cons ⟨looked, sureLooked⟩ <|
    .cons ⟨saved, trivial⟩ <| .nil _

/-- A save is cut after its link, and the next one for the match completes. -/
theorem cut_run : ∃ events state, Run (SureStep prefixing) .fresh events state ∧
    state.completed savedPath = some "[2]" ∧ state.shelf.linked savedPath = some "[1]" := by
  obtain ⟨first, rest, linked⟩ := linked_run
  let left : Disk := ⟨fun path => (linkedDisk.now path).map fun file =>
    ⟨file.bytes, file.bytes.length⟩, fun _ => []⟩
  have there : left.now savedPath ≠ none := by
    simp [left, linkedDisk]
  have crashed : SureStep prefixing (during (sampleOf "[1]") linkedDisk linkedJson rest) .crash
      (resting left linkedJson fun _ => none) :=
    ⟨⟨left, linkedDisk.crashed_settled, rfl⟩, trivial⟩
  obtain ⟨second, -, sure⟩ := @found_run left linkedJson there
  refine ⟨_, _, linked.append (.cons crashed (sure fun _ => by simp [left])), ?_, ?_⟩
  · exact Sample.json_match (sampleOf "[2]")
  · simp [resting, linkedJson]

/-- The save is cut after its link, another one returns, and the sample stays what was linked. -/
theorem raw_samples_stable_cut : ∃ state : RawState, state.completed savedPath ≠ none ∧
    ∃ json, state.shelf.linked savedPath = some json ∧
      ∀ after later, Run (SureStep prefixing) state after later →
        later.shelf.linked savedPath = some json ∧
          later.read prefixing savedPath = .ok json := by
  obtain ⟨events, state, run, completed, -⟩ := cut_run
  have done : state.completed savedPath ≠ none := by simp [completed]
  exact ⟨state, done, raw_samples_stable prefixing_lawful run done⟩

/-- A save that is cut after its link wins over the first one that completes. -/
theorem first_completed_not_read : ¬∀ (zstd : Zstd), zstd.Lawful →
    ∀ events state path json, Run (RawStep zstd) .fresh events state →
      state.completed path = some json → state.read zstd path = .ok json := by
  intro always
  obtain ⟨events, state, run, completed, linked⟩ := cut_run
  have read := always prefixing prefixing_lawful events state _ _
    (run.mono fun _ _ _ step => step.1) completed
  have holds := run_holds prefixing_lawful run
  have done : state.completed savedPath ≠ none := by simp [completed]
  obtain ⟨sampled, kept⟩ := holds.completed _ done
  obtain ⟨json, told, found⟩ := read_eq holds sampled kept.1
  have first : json = "[1]" := Option.some.inj (told.symm.trans linked)
  have second : json = "[2]" := Except.ok.inj (found.symm.trans read)
  exact absurd (first.symm.trans second) (by decide)

/-- Why the steps must be sure. The process of a save ends after the link, the next save finds
the file and completes, and a crash takes the file. -/
theorem unsynced_sample_lost : ¬∀ (zstd : Zstd), zstd.Lawful → ∀ events state path,
    Run (RawStep zstd) .fresh events state → state.completed path ≠ none →
      state.shelf.disk.now path ≠ none := by
  intro always
  obtain ⟨first, rest, linked⟩ := linked_run
  have there : linkedDisk.now savedPath ≠ none := by simp [linkedDisk]
  have ended : RawStep prefixing (during (sampleOf "[1]") linkedDisk linkedJson rest) .ended
      (resting linkedDisk linkedJson fun _ => none) := rfl
  obtain ⟨second, found, -⟩ := @found_run linkedDisk linkedJson there
  have unsynced : none ∈ linkedDisk.past savedPath := by
    rw [linkedDisk, Disk.rename_past_self, Disk.entries, unlinkedDisk_now]
    exact List.mem_cons_self
  have crashed : RawStep prefixing (resting linkedDisk linkedJson (sampleOf "[2]").json) .crash
      (resting _ linkedJson (sampleOf "[2]").json) :=
    ⟨_, linkedDisk.crashed_lost unsynced, rfl⟩
  have run := (linked.mono fun _ _ _ step => step.1).append
    (.cons ended (found.append (.cons crashed (.nil _))))
  have completed : (sampleOf "[2]").json savedPath = some "[2]" :=
    Sample.json_match (sampleOf "[2]")
  have gone := always prefixing prefixing_lawful _ _ savedPath run (by simp [resting, completed])
  simp [resting] at gone

end LolCrawler.Raw
