import LolCrawler.Store.Survival

/-! # What survives crashes

A process opens the store, calls it, and crashes between two steps of a call or of an opening, or
between calls, any number of times. Of the tables, a crash leaves what is durable; of the memory,
nothing; of each file, what was synced and a part of what was written since. In every state reached,
each record that can be read from a segment names its players, whose ids are durable, and each game
that `store_match` put into a durable bitmap has a record in a segment of its platform.
-/

namespace LolCrawler.Store

open Foundation Segment Prog

/-! ## Crashes -/

/-- What a crash leaves of the files of a segment. -/
def SegmentFiles.crashed (held : SegmentFiles) (kept : File → Nat) : SegmentFiles where
  files := fun file => (held.files file).map fun bytes => bytes.take (held.synced file + kept file)
  synced := held.synced

variable (codecs : Codecs)

/-- What `read_segment_records` reads from a segment. -/
def State.readable (state : State) (place : Place) : Except Error (List Bytes) :=
  readSegmentRecords codecs (((state.segments place).files .seg).getD [])

/-- What a crash leaves of the store.
The history keeps the matches whose records it did not take. -/
def State.crashed (state : State) (kept : Place → File → Nat) : State :=
  let left : State :=
    { state with
      tables := state.durable
      working := state.durable
      ram := .empty
      segments := fun place => (state.segments place).crashed (kept place) }
  { left with
    stored := fun place =>
      (state.stored place).take (((left.readable codecs place).toOption.getD []).length) }

variable {codecs} {state : State} {layouts : Place → Layout}

/-- The segment file is not longer than a file can be. -/
def SegmentFiles.Small (held : SegmentFiles) : Prop :=
  ((held.files .seg).getD []).length < 2 ^ 63

/-! ## What can be read -/

/-- What can be read are the records of the flushed blocks. -/
theorem Laid.readable {place : Place} {layout : Layout}
    (laid : Laid codecs (state.segments place) layout) (lossless : codecs.Lossless)
    (small : (state.segments place).Small) :
    state.readable codecs place = .ok (layout.kept.map Stored.raw) := by
  rw [State.readable, laid.content]
  rw [SegmentFiles.Small, laid.content] at small
  rw [readSegmentRecords_torn lossless laid.part laid.whole small, rowsOf_raws]
  rfl

/-- What a crash leaves of one segment. -/
theorem Laid.crashed {held : SegmentFiles} {layout : Layout} (laid : Laid codecs held layout)
    (kept : File → Nat) :
    ∃ layout', Laid codecs (held.crashed kept) layout' ∧ layout'.waiting = [] ∧
      layout'.kept <+: layout.kept ∧ ∀ stored, layout.Safe codecs held stored →
        layout'.Safe codecs (held.crashed kept) stored := by
  obtain ⟨count, torn, same, part, earlier⟩ :=
    take_rowBlocks laid.part laid.whole (held.synced .seg + kept .seg)
  refine ⟨⟨layout.flushed.take count, torn, []⟩, ⟨?_, ?_, part⟩, rfl, ?_, ?_⟩
  · have taken : ((held.crashed kept).files .seg).getD [] =
        ((held.files .seg).getD []).take (held.synced .seg + kept .seg) := by
      simp only [SegmentFiles.crashed]
      cases held.files .seg with
      | none => exact List.take_nil.symm
      | some bytes => rfl
    rw [taken, laid.content, same, rowsOf_take]
  · intro block inside
    rw [rowsOf_take] at inside
    exact laid.whole block (List.mem_of_mem_take inside)
  · exact (List.take_prefix _ _).flatMap _
  · intro stored safe
    obtain ⟨before, synced, inside⟩ := safe
    have blocks : (layout.flushed.take count).take before = layout.flushed.take before := by
      have rows := earlier before (by
        rw [← rowsOf_take]
        exact Nat.le_trans synced (Nat.le_add_right _ _))
      rw [List.take_take, List.take_eq_take_iff, rowsOf, List.length_map] at rows
      rw [List.take_take, List.take_eq_take_iff]
      exact rows
    exact ⟨before, by rw [blocks]; exact synced, by rw [blocks]; exact inside⟩

/-- **A crash.** What it falls back on is a closed store. -/
theorem State.Backed.crashed (backed : state.Backed codecs) (lossless : codecs.Lossless)
    {kept : Place → File → Nat}
    (small : ∀ place, ((state.crashed codecs kept).segments place).Small) :
    (state.crashed codecs kept).Closed codecs := by
  obtain ⟨layouts, backed⟩ := backed
  choose layouts' laid waiting shorter safe using fun place =>
    (backed.laid place).crashed (kept place)
  have readable : ∀ place, (state.crashed codecs kept).readable codecs place =
      .ok ((layouts' place).kept.map Stored.raw) :=
    fun place => Laid.readable (laid place) lossless (small place)
  have history : ∀ place, (state.crashed codecs kept).stored place = (layouts' place).kept := by
    intro place
    show (state.stored place).take
      (((state.crashed codecs kept).readable codecs place).toOption.getD []).length = _
    rw [readable, backed.history, Except.toOption, Option.getD_some, List.length_map,
      List.take_append_of_le_length (shorter place).length_le]
    exact (List.prefix_iff_eq_take.mp (shorter place)).symm
  refine ⟨layouts', ⟨laid, ?_, backed.issued, ?_, ?_⟩, ⟨rfl, rfl⟩, waiting⟩
  · intro place
    rw [history, waiting, List.append_nil]
  · intro place stored inside
    exact backed.named place stored ((shorter place).subset inside)
  · intro platform bitmap gameId found inside
    obtain ⟨date, stored, here, game⟩ := backed.saved platform bitmap gameId found inside
    exact ⟨date, stored, safe _ stored here, game⟩

/-! ## Calls -/

/-- The calls of an open store. -/
inductive Operation where
  | assignPlayerIds (puuids : List String)
  | storeMatch (given : Match) (clock : Clock)
  | markSeen (platform : String) (gameId : UInt64)
  | addRankSnapshot (pid tsMs : Nat) (snap : RankSnap)
  | cohortAddBatch (players : List Nat) (source nowMs : Nat)
  | frontierPush (platform : String) (bucket dueMs pid : Nat) (task : FrontierTask)
  | frontierPushBatch (platform : String) (bucket dueMs : Nat) (items : List (Nat × FrontierTask))
  | frontierPopDue (platform : String) (nowMs : Nat)
  | frontierReconcile (platforms : List String) (nowMs : Nat)
  | frontierBackfillReset (nowMs : Nat)
  | commit (nowMs : Nat) (order : List String)

def Operation.run (codecs : Codecs) : Operation → Act Unit
  | .assignPlayerIds puuids => do
      let _ ← Store.assignPlayerIds puuids
      pure ()
  | .storeMatch given clock => do
      let _ ← Store.storeMatch codecs given.record given.puuids given.tsMs given.growthPaused clock
      pure ()
  | .markSeen platform gameId => Store.markSeen .markSeen platform gameId
  | .addRankSnapshot pid tsMs snap => Store.addRankSnapshot pid tsMs snap
  | .cohortAddBatch players source nowMs => do
      let _ ← Store.cohortAddBatch players source nowMs
      pure ()
  | .frontierPush platform bucket dueMs pid task =>
      Store.frontierPush platform bucket dueMs pid task
  | .frontierPushBatch platform bucket dueMs items =>
      Store.frontierPushBatch platform bucket dueMs items
  | .frontierPopDue platform nowMs => do
      let _ ← Store.frontierPopDue platform nowMs
      pure ()
  | .frontierReconcile platforms nowMs => do
      let _ ← Store.frontierReconcile platforms nowMs
      pure ()
  | .frontierBackfillReset nowMs => do
      let _ ← Store.frontierBackfillReset nowMs
      pure ()
  | .commit nowMs order => Store.commit codecs nowMs order

/-- The blocks that a call flushes are within the limits, and a commit flushes each writer once. -/
def Operation.Fits (codecs : Codecs) (state : State) : Operation → Prop
  | .storeMatch given clock => ∀ writer,
      state.ram.writers.get given.record.platform = some writer → writer.date ≠ clock.checked →
        writer.block.Fits codecs
  | .commit _ order =>
      Enumerates order (fun platform => (state.ram.writers.get platform).isSome) ∧
        ∀ platform writer, state.ram.writers.get platform = some writer → writer.block.Fits codecs
  | .assignPlayerIds _ | .markSeen .. | .addRankSnapshot .. | .cohortAddBatch .. | .frontierPush ..
  | .frontierPushBatch .. | .frontierPopDue .. | .frontierReconcile .. | .frontierBackfillReset _ =>
      True

/-- The value of a call is not used. -/
theorem endures_discard {α : Type} {program : Act α} {kept crashed : State → Prop}
    (endures : Endures program state (fun _ => kept) kept crashed) :
    Endures (program >>= fun _ => pure ()) state (fun _ => kept) kept crashed :=
  endures.bind fun _ _ here => Endures.pure here

/-- **Each call** endures every cut: what was live or backed stays so. -/
theorem Operation.endures {operation : Operation} (live : LiveAs codecs state layouts)
    (fits : operation.Fits codecs state) :
    Endures (operation.run codecs) state (fun _ => State.Live codecs) (State.Live codecs)
      (State.Backed codecs) := by
  have spares : ∀ edit, SparesPlayers edit → SparesPlayers edit := fun _ here => here
  cases operation with
  | assignPlayerIds puuids => exact endures_discard (assignPlayerIds_endures live puuids)
  | storeMatch given clock => exact endures_discard (storeMatch_endures live given fits)
  | markSeen platform gameId => exact markSeen_endures live platform gameId
  | addRankSnapshot pid tsMs snap => exact addRankSnapshot_endures live pid tsMs snap
  | cohortAddBatch players source nowMs =>
      exact endures_discard (beside_endures live
        (sturdy_steps.cohortAddBatch edits_any (fun _ => trivial) _ _ _)
        (beside_steps.cohortAddBatch spares (fun new => ⟨new, rfl⟩) _ _ _))
  | frontierPush platform bucket dueMs pid task =>
      exact beside_endures live (sturdy_steps.frontierPush edits_any _ _ _ _ _)
        (beside_steps.frontierPush spares _ _ _ _ _)
  | frontierPushBatch platform bucket dueMs items =>
      exact beside_endures live (sturdy_steps.frontierPushBatch edits_any _ _ _ _)
        (beside_steps.frontierPushBatch spares _ _ _ _)
  | frontierPopDue platform nowMs =>
      exact endures_discard (beside_endures live
        (sturdy_steps.frontierPopDue edits_any _ _)
        (beside_steps.frontierPopDue spares _ _))
  | frontierReconcile platforms nowMs =>
      exact endures_discard (beside_endures live
        (sturdy_steps.frontierReconcile edits_any _ _)
        (beside_steps.frontierReconcile spares _ _))
  | frontierBackfillReset nowMs =>
      exact endures_discard (beside_endures live
        (sturdy_steps.frontierBackfillReset edits_any _)
        (beside_steps.frontierBackfillReset spares _))
  | commit nowMs order => exact commit_endures live nowMs fits.1 fits.2

/-! ## Runs -/

/-- A process: its data, and whether the store is open. -/
structure Process where
  store : State
  running : Bool

/-- An empty data directory. -/
def Process.fresh : Process := ⟨.empty, false⟩

/-- What happens to a process. `point` counts the steps before a crash, and `kept` the bytes it
leaves of those that were not synced. -/
inductive ProcessEvent where
  | openStore (platforms : List String)
  | call (operation : Operation)
  | crash (kept : Place → File → Nat)
  | crashInCall (operation : Operation) (point : Nat) (kept : Place → File → Nat)
  | crashInOpening (platforms : List String) (point : Nat) (kept : Place → File → Nat)

/-- A call returns, with or without an error. -/
def Process.Does (codecs : Codecs) (process : Process) : ProcessEvent → Process → Prop
  | .openStore platforms, next => process.running = false ∧ ∃ store,
      Ends (openStore platforms) process.store () store ∧ next = ⟨store, true⟩
  | .call operation, next => process.running = true ∧ operation.Fits codecs process.store ∧
      ∃ result after, operation.run codecs ⟨process.store, .never⟩ = (result, after) ∧
        result ≠ .error .crashed ∧ next = ⟨after.state, true⟩
  | .crash kept, next => next = ⟨process.store.crashed codecs kept, false⟩
  | .crashInCall operation point kept, next =>
      process.running = true ∧ operation.Fits codecs process.store ∧ ∃ after,
        operation.run codecs ⟨process.store, .crash point⟩ = (.error .crashed, after) ∧
          next = ⟨after.state.crashed codecs kept, false⟩
  | .crashInOpening platforms point kept, next => process.running = false ∧ ∃ after,
      openStore platforms ⟨process.store, .crash point⟩ = (.error .crashed, after) ∧
        next = ⟨after.state.crashed codecs kept, false⟩

/-- One event. A segment file is never longer than files can be. -/
def ProcessStep (codecs : Codecs) (process : Process) (event : ProcessEvent) (next : Process) :
    Prop :=
  process.Does codecs event next ∧ ∀ place, (next.store.segments place).Small

/-- The store of a running process is live, and that of another one is closed. -/
def Process.Kept (codecs : Codecs) (process : Process) : Prop :=
  if process.running then process.store.Live codecs else process.store.Closed codecs

theorem Process.Kept.backed {process : Process} (kept : process.Kept codecs) :
    process.store.Backed codecs := by
  unfold Process.Kept at kept
  split at kept
  · exact kept.backed
  · obtain ⟨layouts, closed⟩ := kept
    exact ⟨layouts, closed.toBackedAs⟩

/-- In an empty directory nothing is flushed, and nothing waits. -/
theorem kept_fresh : Process.fresh.Kept codecs := by
  refine ⟨fun _ => ⟨[], [], []⟩, ⟨fun place => ⟨rfl, fun _ inside => ?_, tornBlock_nil⟩,
    fun _ => rfl, ⟨0, ?_, ?_⟩, fun _ _ inside => ?_, ?_⟩, ⟨rfl, rfl⟩, fun _ => rfl⟩
  · exact (List.not_mem_nil inside).elim
  · intro first second id found
    cases found
  · intro puuid id found
    cases found
  · exact (List.not_mem_nil inside).elim
  · intro platform bitmap gameId found
    cases found

/-- **Each event** of the process keeps what is backed. -/
theorem ProcessStep.kept {process next : Process} {event : ProcessEvent}
    (step : ProcessStep codecs process event next) (lossless : codecs.Lossless)
    (kept : process.Kept codecs) : next.Kept codecs := by
  obtain ⟨does, small⟩ := step
  cases event with
  | openStore platforms =>
      obtain ⟨closed, store, ends, rfl⟩ := does
      rw [Process.Kept, closed] at kept
      obtain ⟨layouts, closed⟩ := kept
      obtain ⟨-, rfl⟩ := ends.unique (openStore_ends platforms process.store)
      exact (closed.loaded platforms).live
  | call operation =>
      obtain ⟨running, fits, result, after, run, up, rfl⟩ := does
      rw [Process.Kept, running] at kept
      obtain ⟨layouts, live⟩ := kept
      exact (operation.endures live fits).returns run up
  | crash lost =>
      cases does
      exact kept.backed.crashed lossless small
  | crashInCall operation point lost =>
      obtain ⟨running, fits, after, run, rfl⟩ := does
      rw [Process.Kept, running] at kept
      obtain ⟨layouts, live⟩ := kept
      exact ((operation.endures live fits).crashes run).crashed lossless small
  | crashInOpening platforms point lost =>
      obtain ⟨closed, after, run, rfl⟩ := does
      rw [Process.Kept, closed] at kept
      obtain ⟨layouts, closed⟩ := kept
      have loads := (openStore_loads platforms process.store).error run
      have backed : after.state.Backed codecs :=
        ⟨layouts, closed.toBackedAs.congr (loads.disk closed.toFallen)⟩
      exact backed.crashed lossless small

/-- What holds in every state reached. -/
theorem ProcessStep.run_kept (lossless : codecs.Lossless) {events : List ProcessEvent}
    {process : Process} (run : Run (ProcessStep codecs) .fresh events process) :
    process.Kept codecs ∧ ∀ place, (process.store.segments place).Small := by
  have small : ∀ place, (Process.fresh.store.segments place).Small := by
    intro place
    show 0 < 2 ^ 63
    decide
  exact run.invariant
    (fun process => process.Kept codecs ∧ ∀ place, (process.store.segments place).Small)
    (fun _ _ _ kept step => ⟨step.kept lossless kept.1, step.2⟩) ⟨kept_fresh, small⟩

/-- The players of the tables: those that are durable, and no two of them with one id. -/
theorem Process.Kept.players {process : Process} (kept : process.Kept codecs) :
    (∃ next, Issued process.store.tables.players next) ∧
      ∀ puuid id, process.store.durable.players.get puuid = some id →
        process.store.tables.players.get puuid = some id := by
  unfold Process.Kept at kept
  split at kept
  · obtain ⟨layouts, live⟩ := kept
    exact ⟨⟨_, live.same.issued live.fresh⟩, live.grown⟩
  · obtain ⟨layouts, closed⟩ := kept
    rw [closed.tables]
    exact ⟨closed.issued, fun _ _ known => known⟩

/-- **Crash durability.** In every state reached, the records that can be read from a segment are
those of its first matches, and these name their players, who share no ids; and a game that
`store_match` put into a durable bitmap has a record that can be read. -/
theorem crash_durability (lossless : codecs.Lossless) {events : List ProcessEvent}
    {process : Process} (run : Run (ProcessStep codecs) .fresh events process) :
    (∀ place, ∃ raws, process.store.readable codecs place = .ok raws ∧
      ∀ (idx : Nat) raw, raws[idx]? = some raw → ∃ stored,
        (process.store.stored place)[idx]? = some stored ∧ raw = stored.record.encodeToVec ∧
          stored.Named process.store.tables.players ∧
          stored.Named process.store.durable.players) ∧
    (∀ players ∈ [process.store.tables.players, process.store.durable.players],
      ∀ first second id, players.get first = some id → players.get second = some id →
        first = second) ∧
    ∀ platform bitmap gameId, process.store.durable.bitmaps.get platform = some bitmap →
      (gameId, .storeMatch) ∈ bitmap → ∃ date raws, ∃ idx : Nat, ∃ stored : Stored,
        process.store.readable codecs (platform, date) = .ok raws ∧
          raws[idx]? = some stored.record.encodeToVec ∧
          (process.store.stored (platform, date))[idx]? = some stored ∧
          stored.record.gameId = gameId := by
  obtain ⟨kept, small⟩ := ProcessStep.run_kept lossless run
  obtain ⟨⟨next, issued⟩, grown⟩ := kept.players
  obtain ⟨layouts, backed⟩ := kept.backed
  have reads : ∀ place, process.store.readable codecs place =
      .ok ((layouts place).kept.map Stored.raw) :=
    fun place => (backed.laid place).readable lossless (small place)
  have recorded : ∀ {place : Place} {idx : Nat} {stored : Stored},
      (layouts place).kept[idx]? = some stored →
        (process.store.stored place)[idx]? = some stored := by
    intro place idx stored here
    rw [backed.history, List.getElem?_append_left (List.getElem?_eq_some_iff.mp here).1]
    exact here
  refine ⟨fun place => ⟨_, reads place, fun idx raw there => ?_⟩, ?_, ?_⟩
  · rw [List.getElem?_map, Option.map_eq_some_iff] at there
    obtain ⟨stored, here, rfl⟩ := there
    have named := backed.named place stored (List.mem_of_getElem? here)
    exact ⟨stored, recorded here, rfl, named.mono grown, named⟩
  · intro players inside first second id one two
    rcases List.mem_pair.mp inside with rfl | rfl
    · exact issued.injective one two
    · obtain ⟨_, issued⟩ := backed.issued
      exact issued.injective one two
  · intro platform bitmap gameId found inside
    obtain ⟨date, stored, safe, game⟩ := backed.saved platform bitmap gameId found inside
    obtain ⟨idx, here⟩ := List.mem_iff_getElem?.mp safe.kept
    refine ⟨date, _, idx, stored, reads _, ?_, recorded here, game⟩
    rw [List.getElem?_map, here]
    rfl

/-! ## One run -/

/-- The other segments stay as they are. -/
def Elsewhere (place : Place) (before after : State) : Prop :=
  ∀ other, other ≠ place → after.segments other = before.segments other

theorem onFiles_elsewhere {α : Type} (place : Place) (action : Fs File α) :
    Leaves (Elsewhere place) (onFiles place action) :=
  onFiles_leaves place action fun _ _ _ different => Function.update_of_ne different _ _

/-- An operation on one segment's files ends with everything else as it was. -/
theorem onFiles_ends_elsewhere {α : Type} (place : Place) (action : Fs File α) (before : State) :
    Meets (onFiles place action) before (fun _ after => Elsewhere place before after)
      fun _ _ => True :=
  (onFiles_elsewhere place action before).mono (fun _ _ here => here) fun _ _ _ => trivial

/-- A platform's first match opens the files of the day. -/
theorem storeMatch_elsewhere {given : Match} {clock : Clock}
    (first : state.ram.writers.get given.record.platform = none) :
    Meets (storeMatch codecs given.record given.puuids given.tsMs given.growthPaused clock) state
      (fun _ after => Elsewhere (given.record.platform, clock.today) state after)
      fun _ _ => True := by
  refine storeMatch_of_archive (fun _ _ _ => trivial) ?_
  unfold archive
  have none : (given.committed state).ram.writers.get (given.filled state.ram).platform = none := by
    rw [(given.committed_apart state).writers]
    exact first
  have rolled : Meets (rollIfNeeded codecs (given.filled state.ram).platform clock)
      (given.committed state) (fun _ after => after = given.committed state) fun _ _ => True := by
    refine Meets.gets_bind ?_
    rw [none]
    exact Meets.pure rfl
  have opened : Meets (openWriter (given.filled state.ram).platform clock) (given.committed state)
      (fun _ after => Elsewhere (given.record.platform, clock.today) state after)
      fun _ _ => True := by
    refine Meets.gets_bind ?_
    rw [none]
    refine (onFiles_ends_elsewhere _ _ _).bind fun _ between here => ?_
    unfold setWriter setRam
    refine Meets.modify_bind (Meets.pure fun other different => ?_)
    rw [here other different, (committed_admits given state).segments]
  refine rolled.bind fun _ between here => ?_
  rw [here]
  refine opened.bind fun writer after here => ?_
  unfold appendRecord setWriter markSeen setRam
  simp only [bind_assoc]
  exact Meets.modify_bind (Meets.modify_bind (Meets.modify here))

theorem commit_elsewhere {platform : String} {writer : Writer}
    (found : state.ram.writers.get platform = some writer) (nowMs : Nat) :
    Meets (commit codecs nowMs [platform]) state
      (fun _ after => Elsewhere (platform, writer.date) state after) fun _ _ => True := by
  unfold commit
  refine ((durableCheckpoint_meets nowMs state).mono
    (fun _ _ here => here) fun _ _ _ => trivial).bind
    fun _ between here => ?_
  rw [here]
  have flushed : Meets (flushWriters codecs [platform]) (state.checkpointed nowMs)
      (fun _ after => Elsewhere (platform, writer.date) state after) fun _ _ => True := by
    unfold flushWriters flushWriter setWriter setRam
    refine Meets.gets_bind ?_
    simp only [State.checkpointed, found, bind_assoc]
    refine (onFiles_ends_elsewhere _ _ _).bind fun _ between here => ?_
    exact Meets.modify_bind (Meets.pure here)
  refine flushed.bind fun _ between here => ?_
  refine (commitBitmaps_meets between).mono (fun _ after same => ?_) fun _ _ _ => trivial
  rw [same]
  split
  · exact here
  · exact here

theorem SegmentFiles.Small.crashed {held : SegmentFiles} (small : held.Small) (kept : File → Nat) :
    (held.crashed kept).Small := by
  unfold SegmentFiles.Small at small ⊢
  simp only [SegmentFiles.crashed]
  cases found : held.files .seg with
  | none =>
      rw [found] at small
      exact small
  | some bytes =>
      rw [found] at small
      exact Nat.lt_of_le_of_lt (List.length_take_le' _ _) small

/-- A game of one player. -/
def soloGame : Match where
  record :=
    { shortRecord with
      gameId := 1
      platform := "EUW1"
      durationS := 1800
      participants := [⟨0, 266, 0, 4, 14, [], []⟩] }
  puuids := ["a"]
  tsMs := 1000
  growthPaused := false

/-- The game is stored, and committed. -/
def soloStored : State :=
  (Operation.run shortCodecs (.storeMatch soloGame sampleClock) ⟨opened ["EUW1"], .never⟩).2.state

def soloCommitted : State :=
  (Operation.run shortCodecs (.commit 0 ["EUW1"]) ⟨soloStored, .never⟩).2.state

/-- A call that was evaluated, and works on one segment. -/
theorem call_step {operation : Operation} {place : Place} (fits : operation.Fits codecs state)
    (elsewhere : Meets (operation.run codecs) state (fun _ after => Elsewhere place state after)
      fun _ _ => True)
    (returned : (operation.run codecs ⟨state, .never⟩).1.toOption = some ())
    (before : ∀ other, (state.segments other).Small)
    (small : ((operation.run codecs ⟨state, .never⟩).2.state.segments place).Small) :
    ProcessStep codecs ⟨state, true⟩ (.call operation)
      ⟨(operation.run codecs ⟨state, .never⟩).2.state, true⟩ := by
  rcases run : operation.run codecs ⟨state, .never⟩ with ⟨halt | value, after⟩
  · rw [run] at returned
    cases returned
  · rw [run] at small
    refine ⟨⟨rfl, fits, _, _, run, nofun, rfl⟩, fun other => ?_⟩
    by_cases same : other = place
    · rw [same]
      exact small
    · show (after.state.segments other).Small
      rw [elsewhere.ok run other same]
      exact before other

/-- A small block is within the limits, compressed or not. -/
theorem fits_of_short {writer : SegmentWriter} (short : writer.buf.length ≤ 100) :
    writer.Fits shortCodecs := by
  refine ⟨?_, fun compressed packed => ?_⟩
  · unfold maxSegmentBlockBytes
    omega
  · simp only [shortCodecs, storedCodecs] at packed
    split at packed
    · cases packed
      rw [List.length_append, frameHeader, maxSegmentBlockBytes]
      simp
      omega
    · cases packed

/-- The one writer's block is small. -/
theorem solo_writers {platform : String} {writer : Writer}
    (found : soloStored.ram.writers.get platform = some writer) :
    platform = "EUW1" ∧ writer.date = sampleClock.today ∧ writer.block.Fits shortCodecs := by
  have measured : ∀ entry ∈ soloStored.ram.writers.entries, entry.1 = "EUW1" ∧
      entry.2.date = sampleClock.today ∧ entry.2.block.buf.length ≤ 100 := by
    decide +kernel
  obtain ⟨same, date, length⟩ : platform = "EUW1" ∧ writer.date = sampleClock.today ∧
      writer.block.buf.length ≤ 100 := measured _ (Table.get_eq_some.mp found)
  exact ⟨same, date, fits_of_short length⟩

/-- The game is stored in a store that was opened on an empty directory. -/
theorem solo_stores :
    Run (ProcessStep shortCodecs) .fresh
      [.openStore ["EUW1"], .call (.storeMatch soloGame sampleClock)] ⟨soloStored, true⟩ := by
  have empty : ∀ place, ((opened ["EUW1"]).segments place).Small := by
    intro place
    show 0 < 2 ^ 63
    decide
  have opens : ProcessStep shortCodecs .fresh (.openStore ["EUW1"]) ⟨opened ["EUW1"], true⟩ :=
    ⟨⟨rfl, _, openStore_ends _ _, rfl⟩, empty⟩
  have stores : ProcessStep shortCodecs ⟨opened ["EUW1"], true⟩
      (.call (.storeMatch soloGame sampleClock)) ⟨soloStored, true⟩ := by
    refine call_step (fun writer found => by cases found)
      ((storeMatch_elsewhere rfl).bind fun _ _ here => Meets.pure here) (by decide +kernel) empty ?_
    unfold SegmentFiles.Small
    decide +kernel
  exact .cons opens (.cons stores (.nil _))

/-- Then it is committed. -/
theorem solo_commits :
    ProcessStep shortCodecs ⟨soloStored, true⟩ (.call (.commit 0 ["EUW1"]))
      ⟨soloCommitted, true⟩ := by
  have small := (ProcessStep.run_kept (storedCodecs_lossless _) solo_stores).2
  have writer : ∃ writer, soloStored.ram.writers.get "EUW1" = some writer :=
    Option.isSome_iff_exists.mp (by decide +kernel)
  obtain ⟨writer, found⟩ := writer
  refine call_step ⟨⟨List.nodup_singleton _, fun platform => ?_⟩, fun platform other there =>
    (solo_writers there).2.2⟩ (commit_elsewhere found 0) (by decide +kernel) small ?_
  · rw [List.mem_singleton]
    constructor
    · intro same
      exact same ▸ Option.isSome_of_eq_some found
    · intro some
      obtain ⟨other, there⟩ := Option.isSome_iff_exists.mp some
      exact (solo_writers there).1
  · rw [(solo_writers found).2.1]
    unfold SegmentFiles.Small
    decide +kernel

/-- The game is stored and committed before a crash. -/
theorem solo_run :
    ∃ store, Run (ProcessStep shortCodecs) .fresh
      [.openStore ["EUW1"], .call (.storeMatch soloGame sampleClock), .call (.commit 0 ["EUW1"]),
        .crash fun _ _ => 0, .openStore ["EUW1"]] ⟨store, true⟩ ∧
      store.durable = soloCommitted.durable := by
  have crashes : ProcessStep shortCodecs ⟨soloCommitted, true⟩ (.crash fun _ _ => 0)
      ⟨soloCommitted.crashed shortCodecs fun _ _ => 0, false⟩ :=
    ⟨rfl, fun place => (solo_commits.2 place).crashed _⟩
  exact ⟨_, solo_stores.append (.cons solo_commits (.cons crashes
    (.cons ⟨⟨rfl, _, openStore_ends _ _, rfl⟩, crashes.2⟩ (.nil _)))), rfl⟩

/-- The game can be read after the crash, and names its player. -/
theorem crash_durability_reopened :
    ∃ store, Run (ProcessStep shortCodecs) .fresh
      [.openStore ["EUW1"], .call (.storeMatch soloGame sampleClock), .call (.commit 0 ["EUW1"]),
        .crash fun _ _ => 0, .openStore ["EUW1"]] ⟨store, true⟩ ∧
      ∃ date raws, ∃ idx : Nat, ∃ stored : Stored,
        store.readable shortCodecs ("EUW1", date) = .ok raws ∧
          raws[idx]? = some stored.record.encodeToVec ∧ stored.record.gameId = 1 ∧
          stored.Named store.durable.players := by
  obtain ⟨store, run, durable⟩ := solo_run
  have seen : ((soloCommitted.durable.bitmaps.get "EUW1").map fun bitmap =>
      decide ((1, Origin.storeMatch) ∈ bitmap)) = some true := by
    decide +kernel
  obtain ⟨bitmap, found, inside⟩ := Option.map_eq_some_iff.mp seen
  rw [← durable] at found
  obtain ⟨reads, -, saved⟩ := crash_durability (storedCodecs_lossless _) run
  obtain ⟨date, raws, idx, stored, readable, here, there, game⟩ :=
    saved "EUW1" bitmap 1 found (of_decide_eq_true inside)
  obtain ⟨raws', readable', named⟩ := reads ("EUW1", date)
  have same : raws = raws' := Except.ok.inj (readable.symm.trans readable')
  obtain ⟨stored', there', -, -, names⟩ := named idx _ (same ▸ here)
  have own : stored = stored' := Option.some.inj (there.symm.trans there')
  exact ⟨store, run, date, raws, idx, stored, readable, here, game, own ▸ names⟩

end LolCrawler.Store
