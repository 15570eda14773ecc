import LolCrawler.Foundation.Run
import LolCrawler.Foundation.Table

/-! # The recompactor beside the writers

A recompaction cycle takes the store lock only to ask which dates the writers hold. Then
it reads the date and the time, lists the segments, and recompacts those that are old
enough, while calls on the store open, flush and roll the writers. Every reading of the
clock and every access to a file is a step of its own here.

The lock keeps the calls on the store apart, so that at most one is under way. Dates are
numbers of days, and instants are nanoseconds of a clock that only moves forward.
-/

namespace LolCrawler.Server

open Foundation

/-! ## Files and writers -/

def secNs : Nat := 1000000000

/-- The date of an instant. -/
def dateOf (instant : Nat) : Nat := instant / (86400 * secNs)

/-- The name of a segment file: the text of a date, or another one. -/
inductive Stem where
  | date (day : Nat)
  | other (name : String)
deriving DecidableEq

/-- A platform's directory, and the name of a segment in it. -/
abbrev SegPath := String × Stem

/-- A segment file. A file that replaces another one has another inode. -/
structure SegFile where
  inode : Nat
  mtime : Nat
deriving DecidableEq

/-- An open segment writer: its date, its append handle, and whether records are buffered. -/
structure OpenWriter where
  date : Nat
  inode : Nat
  pending : Bool
deriving DecidableEq

/-- Where the call that has the store lock is. -/
inductive StoreTask where
  | free
  /-- `store_match` has committed its transaction. -/
  | archiving (platform : String)
  /-- The writer needs a roll, and the checkpoint is done. -/
  | rolling (platform : String)
  /-- The roll has flushed the old day's buffer. -/
  | flushed (platform : String)
  /-- There is no writer yet. -/
  | opening (platform : String)
  /-- The date was read, and the files of that date are opened next. -/
  | dated (platform : String) (date : Nat)
  | appending (platform : String)
  /-- `commit`, with the writers it has not flushed yet. -/
  | committing (platforms : List String)
deriving DecidableEq

/-- What a cycle goes by: the snapshot, the date and the time, and what is left to do. -/
structure Scan where
  openDates : List Nat
  today : Nat
  now : Nat
  regions : List String
  segs : List SegPath
deriving DecidableEq

/-- Where the recompaction cycle is. -/
inductive Cycle where
  | idle
  | snapped (openDates : List Nat)
  | dated (openDates : List Nat) (today : Nat)
  | scanning (scan : Scan)
  | recompacting (scan : Scan) (seg : SegPath)
deriving DecidableEq

structure World where
  clock : Nat
  writers : Table String OpenWriter
  files : Table SegPath SegFile
  store : StoreTask
  cycle : Cycle

/-- A server that has just started, on the segment files of earlier runs. -/
def World.start (clock : Nat) (files : Table SegPath SegFile) : World :=
  ⟨clock, .empty, files, .free, .idle⟩

namespace World

/-- The file of the writer, unless the path leads to another file by now. -/
def linked (world : World) (platform : String) (writer : OpenWriter) : Option SegFile :=
  (world.files.get (platform, .date writer.date)).filter fun file => file.inode = writer.inode

/-- A write to a segment, unless it was unlinked. -/
def touch (world : World) (platform : String) (writer : OpenWriter) : World :=
  match world.linked platform writer with
  | some file =>
      { world with
        files := world.files.insert (platform, .date writer.date)
          { file with mtime := world.clock } }
  | none => world

/-- `SegmentWriter::flush`. -/
def flush (world : World) (platform : String) : World :=
  match world.writers.get platform with
  | some writer =>
      if writer.pending then
        { world.touch platform writer with
          writers := world.writers.insert platform { writer with pending := false } }
      else world
  | none => world

/-- `SegmentWriter::open_files`: a file that is there keeps its time, unless its tail is torn. -/
def openFiles (world : World) (path : SegPath) (torn : Bool) : SegFile :=
  match world.files.get path with
  | some file => if torn then { file with mtime := world.clock } else file
  | none => ⟨0, world.clock⟩

def openWriterDates (world : World) : List Nat :=
  world.writers.entries.map fun entry => entry.2.date

end World

/-! ## Calls on the store -/

inductive StoreAction where
  | storeMatch (platform : String)
  | commit (order : List String)
  | needsRoll
  | flush
  | readDate
  | openFiles (torn : Bool)
  | append
  /-- An error ends the call. It may have written to the file it was at. -/
  | fail (wrote : Bool)

/-- A failed write or truncation. -/
def World.spoilt (world : World) : World :=
  match world.store with
  | .rolling platform | .committing (platform :: _) =>
      (world.writers.get platform).elim world (world.touch platform)
  | .dated platform date =>
      { world with
        files := world.files.insert (platform, .date date)
          (world.openFiles (platform, .date date) true) }
  | .free | .archiving _ | .flushed _ | .opening _ | .appending _ | .committing [] => world

/-- The next step of a call on the store. -/
def World.storeStep (world : World) : StoreAction → Option World
  | .storeMatch platform =>
      if world.store = .free then some { world with store := .archiving platform } else none
  | .commit order =>
      if world.store = .free then some { world with store := .committing order } else none
  | .needsRoll =>
      match world.store with
      | .archiving platform =>
          match world.writers.get platform with
          | some writer =>
              if dateOf world.clock ≠ writer.date then
                some { world with store := .rolling platform }
              else some { world with store := .appending platform }
          | none => some { world with store := .opening platform }
      | _ => none
  | .flush =>
      match world.store with
      | .rolling platform => some { world.flush platform with store := .flushed platform }
      | .committing (platform :: platforms) =>
          some { world.flush platform with store := .committing platforms }
      | .committing [] => some { world with store := .free }
      | _ => none
  | .readDate =>
      match world.store with
      | .flushed platform | .opening platform =>
          some { world with store := .dated platform (dateOf world.clock) }
      | _ => none
  | .openFiles torn =>
      match world.store with
      | .dated platform date =>
          let file := world.openFiles (platform, .date date) torn
          some
            { world with
              files := world.files.insert (platform, .date date) file
              writers := world.writers.insert platform ⟨date, file.inode, false⟩
              store := .appending platform }
      | _ => none
  | .append =>
      match world.store with
      | .appending platform =>
          match world.writers.get platform with
          | some writer =>
              some
                { world with
                  writers := world.writers.insert platform { writer with pending := true }
                  store := .free }
          | none => none
      | _ => none
  | .fail wrote => some { if wrote then world.spoilt else world with store := .free }

/-! ## The cycle -/

/-- `segment_date`, over how chrono reads the other names. -/
def segmentDate (parse : String → Option Nat) : Stem → Option Nat
  | .date day => some day
  | .other name => parse name

/-- `mtime_older_than` an hour. -/
def mtimeOlder (now : Nat) (file : Option SegFile) : Bool :=
  file.any fun file => file.mtime ≤ now && 3600 * secNs ≤ now - file.mtime

/-- The date is over, no writer held it, and the file has not changed for an hour. -/
def Scan.eligible (parse : String → Option Nat) (scan : Scan) (files : Table SegPath SegFile)
    (seg : SegPath) : Bool :=
  (segmentDate parse seg.2).any fun date =>
    date < scan.today && !(scan.openDates.any fun day => seg.2 = .date day) &&
      mtimeOlder scan.now (files.get seg)

inductive CycleAction where
  | snapshot
  | readToday
  | readNow
  /-- The segments that a directory lists. -/
  | readDir (segs : List SegPath)
  | test
  /-- `recompact_segment` ends, with another file in the old one's place or not. -/
  | finish (replaced : Option Nat)
  | rest

section Cycles

variable (parse : String → Option Nat) (enabled : List String)

/-- The next step of `run_recompaction_cycle`. -/
def World.cycleStep (world : World) : CycleAction → Option World
  | .snapshot =>
      if world.cycle = .idle ∧ world.store = .free then
        some { world with cycle := .snapped world.openWriterDates }
      else none
  | .readToday =>
      match world.cycle with
      | .snapped openDates =>
          some { world with cycle := .dated openDates (dateOf world.clock) }
      | _ => none
  | .readNow =>
      match world.cycle with
      | .dated openDates today =>
          some { world with cycle := .scanning ⟨openDates, today, world.clock, enabled, []⟩ }
      | _ => none
  | .readDir segs =>
      match world.cycle with
      | .scanning ⟨openDates, today, now, region :: regions, []⟩ =>
          if segs.all fun seg => seg.1 = region && (world.files.get seg).isSome then
            some { world with cycle := .scanning ⟨openDates, today, now, regions, segs⟩ }
          else none
      | _ => none
  | .test =>
      match world.cycle with
      | .scanning ⟨openDates, today, now, regions, seg :: segs⟩ =>
          let scan : Scan := ⟨openDates, today, now, regions, segs⟩
          some
            { world with
              cycle := if scan.eligible parse world.files seg then .recompacting scan seg
                else .scanning scan }
      | _ => none
  | .finish replaced =>
      match world.cycle with
      | .recompacting scan seg =>
          some
            { world with
              files := match world.files.get seg, replaced with
                | some file, some mtime => world.files.insert seg ⟨file.inode + 1, mtime⟩
                | _, _ => world.files
              cycle := .scanning scan }
      | _ => none
  | .rest =>
      match world.cycle with
      | .scanning ⟨_, _, _, [], []⟩ => some { world with cycle := .idle }
      | _ => none

inductive Action where
  | tick (later : Nat)
  | store (action : StoreAction)
  | cycle (action : CycleAction)

/-- One step of the server. -/
def ServerStep (world : World) : Action → World → Prop
  | .tick later, next => world.clock ≤ later ∧ next = { world with clock := later }
  | .store action, next => world.storeStep action = some next
  | .cycle action, next => world.cycleStep parse enabled action = some next

end Cycles

/-! ## What the cycle must not touch -/

namespace World

/-- A writer has the segment open. -/
def Holds (world : World) (seg : SegPath) : Prop :=
  ∃ writer, world.writers.get seg.1 = some writer ∧ seg.2 = .date writer.date

/-- The call under way has read the date, and opens the segment next. -/
def Takes (world : World) (seg : SegPath) : Prop :=
  ∃ date, world.store = .dated seg.1 date ∧ seg.2 = .date date

def Claims (world : World) (seg : SegPath) : Prop := world.Holds seg ∨ world.Takes seg

/-- What a flush of the writer goes to is what its path leads to. -/
def Linked (world : World) : Prop :=
  ∀ platform writer, world.writers.get platform = some writer →
    ∃ file, world.files.get (platform, .date writer.date) = some file ∧ file.inode = writer.inode

/-- The recompactor is at no file that a writer holds, and no writer holds an unlinked file. -/
structure Undisturbed (world : World) : Prop where
  apart : ∀ scan seg, world.cycle = .recompacting scan seg → ¬ world.Holds seg
  linked : world.Linked

/-- When a cycle reads the time, the segments in use are of its day or a later one, or of a date
that it found in use, or have changed within the hour. -/
def Timely (world : World) : Action → Prop
  | .cycle .readNow => ∀ openDates today, world.cycle = .dated openDates today →
      ∀ platform date, world.Claims (platform, .date date) →
        today ≤ date ∨ date ∈ openDates ∨
          mtimeOlder world.clock (world.files.get (platform, .date date)) = false
  | .tick _ | .store _ | .cycle _ => True

end World

/-- The scan passes over every segment in use. -/
structure Scan.Passes (scan : Scan) (world : World) : Prop where
  today : scan.today ≤ dateOf world.clock
  now : scan.now ≤ world.clock
  skips : ∀ platform date, world.Claims (platform, .date date) →
    scan.today ≤ date ∨ date ∈ scan.openDates ∨
      mtimeOlder scan.now (world.files.get (platform, .date date)) = false

/-- What holds of a cycle wherever it is. -/
def Cycle.Sound (parse : String → Option Nat) (world : World) : Cycle → Prop
  | .idle | .snapped _ => True
  | .dated _ today => today ≤ dateOf world.clock
  | .scanning scan => scan.Passes world
  | .recompacting scan seg => scan.Passes world ∧ ¬ world.Claims seg ∧
      ∃ date, segmentDate parse seg.2 = some date ∧ date < scan.today

/-! ## Steps beside the cycle -/

/-- The files are the same, or changed now. -/
def Renewed (clock : Nat) (before after : Table SegPath SegFile) : Prop :=
  ∀ seg, after.get seg = before.get seg ∨ ∃ file, after.get seg = some file ∧ file.mtime = clock ∧
    ∀ old, before.get seg = some old → file.inode = old.inode

/-- What a step leaves to the cycle: files in use are in use before, or of today. -/
structure Steady (before after : World) : Prop where
  clock : before.clock ≤ after.clock
  cycle : after.cycle = before.cycle
  files : Renewed before.clock before.files after.files
  claims : ∀ seg, after.Claims seg → before.Claims seg ∨ seg.2 = .date (dateOf before.clock)
  handles : before.Linked → after.Linked

/-- Dates are in order. -/
theorem dateOf_mono {first second : Nat} (later : first ≤ second) : dateOf first ≤ dateOf second :=
  Nat.div_le_div_right later

/-- A file of today is not old. -/
theorem mtimeOlder_eq_false {now : Nat} {file : SegFile} (fresh : now ≤ file.mtime) :
    mtimeOlder now (some file) = false := by
  rw [mtimeOlder, Option.any_some, Bool.and_eq_false_iff, decide_eq_false_iff_not,
    decide_eq_false_iff_not]
  right
  unfold secNs
  omega

section Steady

variable {before after : World} {parse : String → Option Nat}

/-- A scan that passes still does. -/
theorem Steady.passes {scan : Scan} (steady : Steady before after) (passes : scan.Passes before) :
    scan.Passes after := by
  refine ⟨Nat.le_trans passes.today (dateOf_mono steady.clock),
    Nat.le_trans passes.now steady.clock, fun platform date claimed => ?_⟩
  rcases steady.claims _ claimed with here | new
  · rcases passes.skips platform date here with later | inside | fresh
    · exact .inl later
    · exact .inr (.inl inside)
    · rcases steady.files (platform, .date date) with same | ⟨file, there, now, -⟩
      · rw [same]
        exact .inr (.inr fresh)
      · rw [there]
        exact .inr (.inr (mtimeOlder_eq_false (by rw [now]; exact passes.now)))
  · cases new
    exact .inl passes.today

/-- Steps beside the cycle do not disturb it. -/
theorem Steady.sound (steady : Steady before after) (sound : before.cycle.Sound parse before) :
    after.cycle.Sound parse after := by
  rw [steady.cycle]
  cases place : before.cycle with
  | idle => trivial
  | snapped openDates => trivial
  | dated openDates today =>
      rw [place] at sound
      exact Nat.le_trans sound (dateOf_mono steady.clock)
  | scanning scan =>
      rw [place] at sound
      exact steady.passes sound
  | recompacting scan seg =>
      rw [place] at sound
      obtain ⟨passes, unclaimed, date, read, past⟩ := sound
      refine ⟨steady.passes passes, fun claimed => ?_, date, read, past⟩
      rcases steady.claims _ claimed with here | new
      · exact unclaimed here
      · -- A file of today is no file of an earlier date.
        rw [new, segmentDate, Option.some.injEq] at read
        have today := passes.today
        omega

end Steady

section Renewed

variable {clock : Nat} {before after : Table SegPath SegFile} {seg : SegPath}

/-- No file is renewed. -/
theorem Renewed.refl (clock : Nat) (files : Table SegPath SegFile) : Renewed clock files files :=
  fun _ => .inl rfl

/-- A file that is written now is renewed. -/
theorem Renewed.insert {file : SegFile}
    (renewed : before.get seg = some file ∨ file.mtime = clock ∧
      ∀ old, before.get seg = some old → file.inode = old.inode) :
    Renewed clock before (before.insert seg file) := by
  intro other
  rw [Table.get_insert]
  split
  · next same =>
      subst same
      rcases renewed with here | ⟨now, inode⟩
      · exact .inl here.symm
      · exact .inr ⟨file, rfl, now, inode⟩
  · exact .inl rfl

/-- Files are changed in place. -/
theorem Renewed.get {file : SegFile} (renewed : Renewed clock before after)
    (there : before.get seg = some file) :
    ∃ file', after.get seg = some file' ∧ file'.inode = file.inode := by
  rcases renewed seg with same | ⟨file', here, -, inode⟩
  · exact ⟨file, same.trans there, rfl⟩
  · exact ⟨file', here, inode file there⟩

end Renewed

namespace World

variable {world : World}

/-- A writer that is touched renews its file only. -/
theorem touch_files (world : World) (platform : String) (writer : OpenWriter) :
    Renewed world.clock world.files (world.touch platform writer).files := by
  unfold touch linked
  cases found : world.files.get (platform, .date writer.date) with
  | none => exact .refl _ _
  | some file =>
      by_cases same : file.inode = writer.inode
      · simp only [Option.filter, same, decide_true, ↓reduceIte]
        refine Renewed.insert (.inr ⟨rfl, fun old here => ?_⟩)
        rw [found, Option.some.injEq] at here
        rw [← here]
        exact same.symm
      · simp only [Option.filter, same, decide_false, Bool.false_eq_true, ↓reduceIte]
        exact .refl _ _

/-- A writer that is touched changes the files only. -/
theorem touch_rest (world : World) (platform : String) (writer : OpenWriter) :
    world.touch platform writer = { world with files := (world.touch platform writer).files } := by
  unfold touch
  split
  · rfl
  · rfl

/-- Files that are opened are renewed. -/
theorem openFiles_renewed (world : World) (path : SegPath) (torn : Bool) :
    Renewed world.clock world.files (world.files.insert path (world.openFiles path torn)) := by
  apply Renewed.insert
  unfold openFiles
  cases found : world.files.get path with
  | none => exact .inr ⟨rfl, nofun⟩
  | some file =>
      cases torn with
      | true =>
          refine .inr ⟨rfl, fun old here => ?_⟩
          cases here
          rfl
      | false => exact .inl rfl

/-- The writers after a flush: the same dates and handles. -/
theorem flush_writers (world : World) (platform other : String) :
    ((world.flush platform).writers.get other).map (fun writer => (writer.date, writer.inode)) =
      (world.writers.get other).map fun writer => (writer.date, writer.inode) := by
  unfold flush
  cases found : world.writers.get platform with
  | none => rfl
  | some writer =>
      simp only
      split
      · simp only [Table.get_insert]
        split
        · next same =>
            subst same
            rw [found]
            rfl
        · rfl
      · rfl

/-- A flush renews the files, and leaves the clock and the cycle. -/
theorem flush_rest (world : World) (platform : String) :
    (world.flush platform).clock = world.clock ∧ (world.flush platform).cycle = world.cycle ∧
      Renewed world.clock world.files (world.flush platform).files := by
  unfold flush
  cases world.writers.get platform with
  | none => exact ⟨rfl, rfl, .refl _ _⟩
  | some writer =>
      simp only
      split
      · rw [touch_rest]
        exact ⟨rfl, rfl, world.touch_files platform writer⟩
      · exact ⟨rfl, rfl, .refl _ _⟩

end World

/-- The writers keep their dates and handles. -/
def SameHandles (before after : Table String OpenWriter) : Prop :=
  ∀ platform, (after.get platform).map (fun writer => (writer.date, writer.inode)) =
    (before.get platform).map fun writer => (writer.date, writer.inode)

/-- A writer had its date and its handle before. -/
theorem SameHandles.get {before after : Table String OpenWriter} {platform : String}
    {writer : OpenWriter} (same : SameHandles before after)
    (here : after.get platform = some writer) :
    ∃ old, before.get platform = some old ∧ old.date = writer.date ∧ old.inode = writer.inode := by
  have there := same platform
  rw [here] at there
  obtain ⟨old, found, equal⟩ := Option.map_eq_some_iff.mp there.symm
  rw [Prod.mk.injEq] at equal
  exact ⟨old, found, equal⟩

/-- A step that opens no writer. -/
theorem Steady.of_sameHandles {before after : World} (clock : after.clock = before.clock)
    (cycle : after.cycle = before.cycle) (files : Renewed before.clock before.files after.files)
    (writers : SameHandles before.writers after.writers)
    (takes : ∀ seg, after.Takes seg → before.Takes seg ∨ seg.2 = .date (dateOf before.clock)) :
    Steady before after := by
  refine ⟨Nat.le_of_eq clock.symm, cycle, files, fun seg claimed => ?_, fun linked => ?_⟩
  · rcases claimed with ⟨writer, here, name⟩ | taken
    · obtain ⟨old, found, date, -⟩ := writers.get here
      exact .inl (.inl ⟨old, found, by rw [name, date]⟩)
    · rcases takes seg taken with there | new
      · exact .inl (.inr there)
      · exact .inr new
  · intro platform writer here
    obtain ⟨old, found, date, inode⟩ := writers.get here
    obtain ⟨file, there, same⟩ := linked platform old found
    rw [date] at there
    obtain ⟨file', here', kept⟩ := files.get there
    exact ⟨file', here', kept.trans (same.trans inode)⟩

/-- A step of the call under way that leaves files and writers alone. -/
theorem Steady.of_store {before : World} {store : StoreTask}
    (takes : ∀ platform date, store = .dated platform date → date = dateOf before.clock) :
    Steady before { before with store := store } := by
  refine .of_sameHandles rfl rfl (.refl _ _) (fun _ => rfl) ?_
  rintro seg ⟨date, taken, name⟩
  right
  rw [name, takes _ _ taken]

/-- A flush leaves the cycle what it relies on. -/
theorem Steady.of_flush {before : World} {store : StoreTask} (platform : String)
    (takes : ∀ platform date, store ≠ .dated platform date) :
    Steady before { before.flush platform with store := store } := by
  obtain ⟨clock, cycle, files⟩ := before.flush_rest platform
  refine .of_sameHandles clock cycle files (before.flush_writers platform) ?_
  rintro seg ⟨date, taken, -⟩
  exact (takes _ _ taken).elim

/-- A spoilt store is steady. -/
theorem World.spoilt_steady (world : World) :
    Steady world { world.spoilt with store := .free } := by
  have idle : ∀ seg, ¬ ({ world.spoilt with store := .free } : World).Takes seg := by
    rintro seg ⟨date, taken, -⟩
    cases taken
  have same : world.spoilt = { world with files := world.spoilt.files } ∧
      Renewed world.clock world.files world.spoilt.files := by
    have touched : ∀ platform, (world.writers.get platform).elim world (world.touch platform) =
        { world with files :=
            ((world.writers.get platform).elim world (world.touch platform)).files } ∧
        Renewed world.clock world.files
          ((world.writers.get platform).elim world (world.touch platform)).files := by
      intro platform
      cases world.writers.get platform with
      | none => exact ⟨rfl, .refl _ _⟩
      | some writer => exact ⟨world.touch_rest platform writer, world.touch_files platform writer⟩
    unfold spoilt
    split
    · exact touched _
    · exact touched _
    · exact ⟨rfl, world.openFiles_renewed _ true⟩
    all_goals exact ⟨rfl, .refl _ _⟩
  obtain ⟨rest, files⟩ := same
  refine .of_sameHandles ?_ ?_ files ?_ fun seg taken => (idle seg taken).elim
  · rw [rest]
  · rw [rest]
  · rw [rest]
    exact fun _ => rfl

/-- Opening the files of a date that was read. -/
theorem Steady.of_openFiles {before : World} {platform : String} {date : Nat} (torn : Bool)
    (taken : before.store = .dated platform date) :
    Steady before
      { before with
        files := before.files.insert (platform, .date date)
          (before.openFiles (platform, .date date) torn)
        writers := before.writers.insert platform
          ⟨date, (before.openFiles (platform, .date date) torn).inode, false⟩
        store := .appending platform } := by
  have files := before.openFiles_renewed (platform, .date date) torn
  refine ⟨Nat.le_refl _, rfl, files, fun seg claimed => .inl ?_, fun linked => ?_⟩
  · rcases claimed with ⟨writer, here, name⟩ | ⟨other, next, -⟩
    · simp only [Table.get_insert] at here
      split at here
      · next same =>
          cases here
          exact .inr ⟨date, by rw [same, taken], name⟩
      · exact .inl ⟨writer, here, name⟩
    · cases next
  · intro other writer here
    simp only [Table.get_insert] at here
    split at here
    · next same =>
        cases here
        subst same
        exact ⟨_, Table.get_insert_self .., rfl⟩
    · obtain ⟨file, there, same⟩ := linked other writer here
      obtain ⟨file', here', kept⟩ := files.get there
      exact ⟨file', here', kept.trans same⟩

/-- **Each call on the store** leaves the cycle what it relies on. -/
theorem World.storeStep_steady {world next : World} {action : StoreAction}
    (step : world.storeStep action = some next) : Steady world next := by
  cases action with
  | storeMatch platform =>
      simp only [storeStep] at step
      split at step
      · cases step
        exact .of_store fun _ _ other => by cases other
      · cases step
  | commit order =>
      simp only [storeStep] at step
      split at step
      · cases step
        exact .of_store fun _ _ other => by cases other
      · cases step
  | needsRoll =>
      simp only [storeStep] at step
      split at step
      · split at step
        · split at step
          · cases step
            exact .of_store fun _ _ other => by cases other
          · cases step
            exact .of_store fun _ _ other => by cases other
        · cases step
          exact .of_store fun _ _ other => by cases other
      · cases step
  | flush =>
      simp only [storeStep] at step
      split at step
      · cases step
        exact .of_flush _ fun _ _ other => by cases other
      · cases step
        exact .of_flush _ fun _ _ other => by cases other
      · cases step
        exact .of_store fun _ _ other => by cases other
      · cases step
  | readDate =>
      simp only [storeStep] at step
      split at step
      · cases step
        refine .of_store ?_
        rintro _ _ ⟨⟩
        rfl
      · cases step
        refine .of_store ?_
        rintro _ _ ⟨⟩
        rfl
      · cases step
  | openFiles torn =>
      simp only [storeStep] at step
      split at step
      · next taken =>
          cases step
          exact .of_openFiles torn taken
      · cases step
  | append =>
      simp only [storeStep] at step
      split at step
      · split at step
        · next found =>
            cases step
            refine .of_sameHandles rfl rfl (.refl _ _) (fun other => ?_) fun _ taken => ?_
            · simp only [Table.get_insert]
              split
              · next same =>
                  subst same
                  rw [found]
                  rfl
              · rfl
            · obtain ⟨_, other, _⟩ := taken
              cases other
        · cases step
      · cases step
  | fail wrote =>
      simp only [storeStep] at step
      cases step
      cases wrote with
      | true => exact world.spoilt_steady
      | false => exact .of_store fun _ _ other => by cases other

/-! ## Steps of the cycle -/

section Cycles

variable {parse : String → Option Nat} {enabled : List String} {world next : World}

/-- The segments that a scan passes over do not depend on where the cycle is. -/
theorem Scan.Passes.move {scan : Scan} (passes : scan.Passes world) (cycle : Cycle) :
    scan.Passes { world with cycle := cycle } :=
  ⟨passes.today, passes.now, passes.skips⟩

/-- What is left to do does not matter. -/
theorem Scan.Passes.rest {openDates : List Nat} {today now : Nat} {regions regions' : List String}
    {segs segs' : List SegPath}
    (passes : Scan.Passes ⟨openDates, today, now, regions, segs⟩ world) :
    Scan.Passes ⟨openDates, today, now, regions', segs'⟩ world :=
  ⟨passes.today, passes.now, passes.skips⟩

/-- A segment that passes the tests is not in use. -/
theorem Scan.Passes.unclaimed {scan : Scan} {seg : SegPath} (passes : scan.Passes world)
    (eligible : scan.eligible parse world.files seg = true) :
    ¬ world.Claims seg ∧ ∃ date, segmentDate parse seg.2 = some date ∧ date < scan.today := by
  obtain ⟨platform, stem⟩ := seg
  simp only [Scan.eligible, Option.any_eq_true, Bool.and_eq_true, decide_eq_true_eq,
    Bool.not_eq_true', List.any_eq_false] at eligible
  obtain ⟨date, read, ⟨past, apart⟩, older⟩ := eligible
  refine ⟨fun claimed => ?_, date, read, past⟩
  obtain ⟨day, rfl⟩ : ∃ day, stem = .date day := by
    rcases claimed with ⟨writer, -, name⟩ | ⟨day, -, name⟩
    · exact ⟨_, name⟩
    · exact ⟨day, name⟩
  rw [segmentDate, Option.some.injEq] at read
  subst read
  rcases passes.skips platform day claimed with later | inside | fresh
  · omega
  · exact apart day inside rfl
  · rw [older] at fresh
    cases fresh

/-- The files other than the one that was recompacted are as they were. -/
theorem World.finish_get (world : World) (seg other : SegPath) (replaced : Option Nat)
    (different : other ≠ seg) :
    (match world.files.get seg, replaced with
      | some file, some mtime => world.files.insert seg ⟨file.inode + 1, mtime⟩
      | _, _ => world.files).get other = world.files.get other := by
  split
  · exact Table.get_insert_of_ne _ _ different
  · rfl

/-- **A step of the recompaction cycle** keeps the cycle sound and the handles linked. -/
theorem World.cycleStep_sound {action : CycleAction} (sound : world.cycle.Sound parse world)
    (linked : world.Linked) (timely : world.Timely (.cycle action))
    (step : world.cycleStep parse enabled action = some next) :
    next.cycle.Sound parse next ∧ next.Linked := by
  cases action with
  | snapshot =>
      simp only [cycleStep] at step
      split at step
      · cases step
        exact ⟨trivial, linked⟩
      · cases step
  | readToday =>
      simp only [cycleStep] at step
      split at step
      · cases step
        exact ⟨Nat.le_refl _, linked⟩
      · cases step
  | readNow =>
      simp only [cycleStep] at step
      split at step
      · next openDates today here =>
          cases step
          rw [here] at sound
          exact ⟨⟨sound, Nat.le_refl _, timely openDates today here⟩, linked⟩
      · cases step
  | readDir segs =>
      simp only [cycleStep] at step
      split at step
      · next here =>
          split at step
          · cases step
            rw [here] at sound
            exact ⟨(Scan.Passes.rest sound).move _, linked⟩
          · cases step
      · cases step
  | test =>
      simp only [cycleStep] at step
      split at step
      · next openDates today now regions seg segs here =>
          cases step
          rw [here] at sound
          have passes : Scan.Passes ⟨openDates, today, now, regions, segs⟩ world :=
            Scan.Passes.rest sound
          refine ⟨?_, linked⟩
          simp only
          split
          · next eligible => exact ⟨passes.move _, passes.unclaimed eligible⟩
          · exact passes.move _
      · cases step
  | finish replaced =>
      simp only [cycleStep] at step
      split at step
      · next scan seg here =>
          cases step
          rw [here] at sound
          obtain ⟨passes, unclaimed, -⟩ := sound
          have others : ∀ other, world.Claims other → other ≠ seg := by
            rintro other claimed rfl
            exact unclaimed claimed
          refine ⟨⟨passes.today, passes.now, fun platform date claimed => ?_⟩,
            fun platform writer held => ?_⟩
          · simp only
            rw [world.finish_get seg _ replaced (others _ claimed)]
            exact passes.skips platform date claimed
          · simp only
            rw [world.finish_get seg _ replaced (others _ (.inl ⟨writer, held, rfl⟩))]
            exact linked platform writer held
      · cases step
  | rest =>
      simp only [cycleStep] at step
      split at step
      · cases step
        exact ⟨trivial, linked⟩
      · cases step

end Cycles

/-! ## Runs -/

section Runs

variable (parse : String → Option Nat) (enabled : List String)

/-- The steps of a server whose cycles read the time in time. -/
def TimelyStep (world : World) (action : Action) (next : World) : Prop :=
  ServerStep parse enabled world action next ∧ world.Timely action

variable {parse enabled} {world next : World}

/-- **One step** keeps the cycle sound and the handles linked, if it is timely. -/
theorem TimelyStep.sound {action : Action} (step : TimelyStep parse enabled world action next)
    (sound : world.cycle.Sound parse world ∧ world.Linked) :
    next.cycle.Sound parse next ∧ next.Linked := by
  obtain ⟨step, timely⟩ := step
  cases action with
  | tick later =>
      obtain ⟨ahead, rfl⟩ := step
      have steady : Steady world { world with clock := later } :=
        ⟨ahead, rfl, .refl _ _, fun _ claimed => .inl claimed, id⟩
      exact ⟨steady.sound sound.1, sound.2⟩
  | store action =>
      have steady := World.storeStep_steady step
      exact ⟨steady.sound sound.1, steady.handles sound.2⟩
  | cycle action => exact World.cycleStep_sound sound.1 sound.2 timely step

/-- **The recompactor keeps off the writers' files.** In every state of every run in which the
cycles read the time in time, no writer holds the segment that is being recompacted, and every
writer's handle leads to the file at its path. -/
theorem recompaction_undisturbed (parse : String → Option Nat) (enabled : List String) (clock : Nat)
    (files : Table SegPath SegFile) {actions : List Action} {world : World}
    (run : Run (TimelyStep parse enabled) (.start clock files) actions world) :
    world.Undisturbed := by
  have sound : world.cycle.Sound parse world ∧ world.Linked :=
    run.invariant (fun world => world.cycle.Sound parse world ∧ world.Linked)
      (fun _ _ _ held step => step.sound held) ⟨trivial, nofun⟩
  refine ⟨fun scan seg here holds => ?_, sound.2⟩
  rw [here] at sound
  exact sound.1.2.1 (.inl holds)

end Runs

/-! ## Midnight -/

/-- The steps one after the other. -/
def World.perform (parse : String → Option Nat) (enabled : List String) (world : World) :
    List Action → Option World
  | [] => some world
  | .tick later :: actions =>
      if world.clock ≤ later then { world with clock := later }.perform parse enabled actions
      else none
  | .store action :: actions =>
      (world.storeStep action).bind fun next => next.perform parse enabled actions
  | .cycle action :: actions =>
      (world.cycleStep parse enabled action).bind fun next => next.perform parse enabled actions

/-- What is performed is a run. -/
theorem World.perform_run {parse : String → Option Nat} {enabled : List String} {world next : World}
    {actions : List Action} (done : world.perform parse enabled actions = some next) :
    Run (ServerStep parse enabled) world actions next := by
  induction actions generalizing world with
  | nil =>
      cases done
      exact .nil _
  | cons action actions ih =>
      cases action with
      | tick later =>
          rw [perform] at done
          split at done
          · next ahead => exact .cons ⟨ahead, rfl⟩ (ih done)
          · cases done
      | store action =>
          obtain ⟨mid, first, rest⟩ := Option.bind_eq_some_iff.mp done
          exact .cons first (ih rest)
      | cycle action =>
          obtain ⟨mid, first, rest⟩ := Option.bind_eq_some_iff.mp done
          exact .cons first (ih rest)

/-- One second before midnight. -/
def lateEvening : Nat := 86399 * secNs

/-- A segment of this day that was last written at noon, by an earlier run of the server. -/
def noonFile : Table SegPath SegFile := Table.empty.insert ("EUW1", .date 0) ⟨0, 43200 * secNs⟩

/-- The next noon: a match has come, and the writer has opened the segment of the new day. -/
def nextNoon (cycle : Cycle) : World :=
  ⟨129600 * secNs, Table.empty.insert "EUW1" ⟨1, 0, true⟩,
    noonFile.insert ("EUW1", .date 1) ⟨0, 129600 * secNs⟩, .free, cycle⟩

/-- A match comes after the snapshot. -/
def beforeNoon : List Action :=
  [.cycle .snapshot, .store (.storeMatch "EUW1"), .store .needsRoll, .store .readDate,
    .store (.openFiles false), .store .append, .cycle .readToday]

/-- The segment of a day that is over is recompacted, while a writer holds the new day's. -/
theorem recompaction_undisturbed_next_noon :
    Run (TimelyStep (fun _ => none) ["EUW1"]) (.start (129600 * secNs) noonFile)
        (beforeNoon ++ [.cycle .readNow,
          .cycle (.readDir [("EUW1", .date 0), ("EUW1", .date 1)]), .cycle .test])
        (nextNoon (.recompacting ⟨[], 1, 129600 * secNs, [], [("EUW1", .date 1)]⟩
          ("EUW1", .date 0))) ∧
      (nextNoon (.recompacting ⟨[], 1, 129600 * secNs, [], [("EUW1", .date 1)]⟩
        ("EUW1", .date 0))).Undisturbed := by
  have opened : Run (TimelyStep (fun _ => none) ["EUW1"]) (.start (129600 * secNs) noonFile)
      beforeNoon (nextNoon (.dated [] 1)) :=
    .cons ⟨rfl, trivial⟩ (.cons ⟨rfl, trivial⟩ (.cons ⟨rfl, trivial⟩ (.cons ⟨rfl, trivial⟩
      (.cons ⟨rfl, trivial⟩ (.cons ⟨rfl, trivial⟩ (.cons ⟨rfl, trivial⟩ (.nil _)))))))
  have timely : TimelyStep (fun _ => none) ["EUW1"] (nextNoon (.dated [] 1)) (.cycle .readNow)
      (nextNoon (.scanning ⟨[], 1, 129600 * secNs, ["EUW1"], []⟩)) := by
    refine ⟨rfl, fun openDates today here platform date claimed => .inl ?_⟩
    cases here
    obtain ⟨writer, held, same⟩ | ⟨other, taken, -⟩ := claimed
    · rw [nextNoon, Table.get_insert] at held
      split at held
      · cases held
        cases same
        exact Nat.le_refl 1
      · cases held
    · cases taken
  have listed : TimelyStep (fun _ => none) ["EUW1"]
      (nextNoon (.scanning ⟨[], 1, 129600 * secNs, ["EUW1"], []⟩))
      (.cycle (.readDir [("EUW1", .date 0), ("EUW1", .date 1)]))
      (nextNoon (.scanning ⟨[], 1, 129600 * secNs, [],
        [("EUW1", .date 0), ("EUW1", .date 1)]⟩)) := ⟨rfl, trivial⟩
  have tested : (Scan.eligible (fun _ => none) ⟨[], 1, 129600 * secNs, [], [("EUW1", .date 1)]⟩
      (nextNoon .idle).files ("EUW1", .date 0)) = true := by decide +kernel
  have last : ServerStep (fun _ => none) ["EUW1"]
      (nextNoon (.scanning ⟨[], 1, 129600 * secNs, [],
        [("EUW1", .date 0), ("EUW1", .date 1)]⟩)) (.cycle .test)
      (nextNoon (.recompacting ⟨[], 1, 129600 * secNs, [], [("EUW1", .date 1)]⟩
        ("EUW1", .date 0))) := by
    simp only [nextNoon] at tested
    simp only [ServerStep, nextNoon, World.cycleStep, tested, ↓reduceIte]
  have run := opened.append (.cons timely (.cons listed (.cons ⟨last, trivial⟩ (.nil _))))
  exact ⟨run, recompaction_undisturbed _ _ _ _ run⟩

/-- The writer is opened between the snapshot and midnight, and the date is read after midnight. -/
def acrossMidnight : List Action :=
  [.cycle .snapshot, .store (.storeMatch "EUW1"), .store .needsRoll, .store .readDate,
    .store (.openFiles false), .store .append, .tick (lateEvening + 2 * secNs), .cycle .readToday,
    .cycle .readNow, .cycle (.readDir [("EUW1", .date 0)]), .cycle .test]

/-- A file that was opened before midnight is recompacted under its writer. -/
theorem recompaction_disturbs_at_midnight :
    ¬ ∀ (parse : String → Option Nat) (enabled : List String) (clock : Nat)
      (files : Table SegPath SegFile) (actions : List Action) (world : World),
      Run (ServerStep parse enabled) (.start clock files) actions world → world.Undisturbed := by
  intro always
  have reached : ((World.start lateEvening noonFile).perform (fun _ => none) ["EUW1"]
      acrossMidnight).any (fun world =>
        world.cycle = .recompacting ⟨[], 1, lateEvening + 2 * secNs, [], []⟩ ("EUW1", .date 0) &&
          (world.writers.get "EUW1").any fun writer => writer.date = 0) = true := by decide +kernel
  obtain ⟨world, done, here⟩ := Option.any_eq_true _ _ |>.mp reached
  rw [Bool.and_eq_true, decide_eq_true_eq, Option.any_eq_true] at here
  obtain ⟨recompacting, writer, held, day⟩ := here
  refine (always _ _ _ _ _ _ (World.perform_run done)).apart _ _ recompacting ⟨writer, held, ?_⟩
  rw [of_decide_eq_true day]

end LolCrawler.Server
