import LolCrawler.Store.Forward

/-! # Failed transactions

The memory repeats some of the tables, and buffers the rank snapshots of the next
checkpoint (`Agrees`). Every call that ends keeps the memory in step with the tables.
A call whose transaction fails may not: `assign_player_ids` and `store_match` write to
memory before they commit, and `durable_checkpoint` drains its buffer before it commits.
Only `cohort_add_batch` waits for its commit. The calls that no failed operation can
harm are those of `StoreCall.Harmless`.
-/

namespace LolCrawler.Store

open Foundation Segment Prog

/-! ## Memory and tables -/

/-- The memory holds what `open` would read off the tables. -/
structure Agrees (ram : Ram) (tables : Tables) : Prop where
  players : ∀ puuid, ram.players.get puuid = tables.players.get puuid
  next : ram.nextPlayerId = (Ram.load [] tables).nextPlayerId
  cohort : ∀ pid, pid ∈ ram.cohort ↔ (tables.cohort.get pid).isSome
  outsiders : ∀ pid, ram.outsiderSeen.get pid = tables.outsider.get pid
  samples : ∀ platform,
    (ram.validSamples.get platform).getD 0 = (tables.validSamples.get platform).getD 0

/-- Each participant of the record has the id under which its player is known. -/
def Stored.Mapped (stored : Stored) (players : Table String Nat) : Prop :=
  ∀ (slot : Nat) part, stored.record.participants[slot]? = some part →
    ∃ puuid id, stored.puuids[slot]? = some puuid ∧ players.get puuid = some id ∧
      part.playerId = .ofNat id

/-- What the parser returns has a player for each participant. -/
def Match.Parsed (given : Match) : Prop :=
  given.record.participants.length = given.puuids.length

/-! ## The calls -/

/-- The calls that write players, members or samples, or drain the buffer. -/
inductive StoreCall where
  | assignPlayerIds (puuids : List String)
  | storeMatch (given : Match) (clock : Clock)
  | cohortAddBatch (players : List Nat) (source nowMs : Nat)
  | durableCheckpoint (nowMs : Nat)

variable (codecs : Codecs)

def StoreCall.run : StoreCall → Act Unit
  | .assignPlayerIds puuids => do
      let _ ← Store.assignPlayerIds puuids
      pure ()
  | .storeMatch given clock => do
      let _ ← Store.storeMatch codecs given.record given.puuids given.tsMs given.growthPaused clock
      pure ()
  | .cohortAddBatch players source nowMs => do
      let _ ← Store.cohortAddBatch players source nowMs
      pure ()
  | .durableCheckpoint nowMs => Store.durableCheckpoint nowMs

/-- A call that ends, of a match that was parsed. -/
def CallStep (state : State) (call : StoreCall) (next : State) : Prop :=
  (∀ given clock, call = .storeMatch given clock → given.Parsed) ∧
    Ends (call.run codecs) state () next

/-- What should hold after a call whose transaction failed: the memory is in step, no snapshot is
lost, and the records of all later calls have ids that the tables hold. -/
structure Survives (before after : State) : Prop where
  agrees : Agrees after.ram after.tables
  ranks : ∀ snapshot ∈ before.ram.pendingRanks, snapshot ∈ after.ram.pendingRanks
  records : ∀ calls final, Run (CallStep codecs) after calls final → ∀ place, ∀ stored ∈
    final.stored place, stored ∈ after.stored place ∨ stored.Mapped final.tables.players

/-- The writer of the platform rolls to another day. -/
def Ram.Rolls (ram : Ram) (platform : String) (clock : Clock) : Prop :=
  ∃ writer, ram.writers.get platform = some writer ∧ writer.date ≠ clock.checked

/-- No operation that fails can harm the call. -/
def StoreCall.Harmless (state : State) : StoreCall → Prop
  | .assignPlayerIds puuids => ∀ puuid ∈ puuids, (state.ram.players.get puuid).isSome
  | .storeMatch given clock =>
      (∀ puuid ∈ given.puuids, (state.ram.players.get puuid).isSome) ∧
        ((state.tables.progress.get given.key).isSome = true ∨ isRemake given.record = true ∨
          (∀ pid ∈ given.pids state.ram, pid ∈ state.ram.cohort) ∧
            given.newlyValid (given.pids state.ram) state.tables = 0) ∧
        (state.ram.pendingRanks = [] ∨ ¬ state.ram.Rolls given.record.platform clock)
  | .cohortAddBatch .. => True
  | .durableCheckpoint _ => state.ram.pendingRanks = []

/-! ## Calls that end -/

section Ends

variable {ram : Ram} {tables : Tables}

/-- The next id is above a new player's. -/
theorem next_insert {players : Table String Nat} {puuid : String} (new : players.get puuid = none)
    (tables : Tables) (same : tables.players = players) :
    (Ram.load [] { tables with
      players := players.insert puuid (Ram.load [] tables).nextPlayerId }).nextPlayerId =
        (Ram.load [] tables).nextPlayerId + 1 := by
  have kept : players.entries.filter (fun entry => entry.1 ≠ puuid) = players.entries := by
    rw [List.filter_eq_self]
    rintro ⟨other, id⟩ inside
    refine decide_eq_true fun here => ?_
    rw [← here, Table.get_eq_some.mpr inside] at new
    cases new
  have more : ∀ (entries : List (String × Nat)) (start extra : Nat),
      entries.foldl (fun next entry => max next (entry.2 + 1)) (max start extra) =
        max (entries.foldl (fun next entry => max next (entry.2 + 1)) start) extra := by
    intro entries
    induction entries with
    | nil => exact fun _ _ => rfl
    | cons entry entries ih =>
        intro start extra
        rw [List.foldl_cons, List.foldl_cons, ← ih]
        congr 1
        omega
  simp only [Ram.load, Table.insert, same, kept, List.foldl_cons, more]
  omega

/-- A new player is in the memory and in the table. -/
theorem Agrees.issue (agrees : Agrees ram tables) {puuid : String}
    (new : ram.players.get puuid = none) :
    Agrees (ram.issue puuid)
      { tables with players := tables.players.insert puuid ram.nextPlayerId } where
  players other := by
    rw [Ram.issue, Table.get_insert, Table.get_insert, agrees.players]
  next := by
    have absent : tables.players.get puuid = none := (agrees.players puuid).symm.trans new
    rw [agrees.next, next_insert absent tables rfl, Ram.issue, agrees.next]
  cohort := agrees.cohort
  outsiders := agrees.outsiders
  samples := agrees.samples

/-- All new players are in the memory and in the table. -/
theorem Agrees.assign (agrees : Agrees ram tables) (puuids : List String) :
    Agrees (ram.assign puuids).1
      { tables with players := addPlayers tables.players (ram.assign puuids).2.2 } := by
  induction puuids generalizing ram tables with
  | nil => exact agrees
  | cons puuid puuids ih =>
      cases found : ram.players.get puuid with
      | some id =>
          rw [assign_known puuids found]
          exact ih agrees
      | none =>
          rw [assign_new puuids found]
          exact ih (agrees.issue found)

/-- What is left aside does not matter. -/
theorem Agrees.aside {before after : State} (agrees : Agrees before.ram before.tables)
    (aside : Aside before after) : Agrees after.ram after.tables := by
  obtain ⟨_, _, tables⟩ := aside.tables
  rw [tables]
  refine ⟨fun puuid => ?_, ?_, fun pid => ?_, fun pid => ?_, fun platform => ?_⟩
  · rw [aside.players]
    exact agrees.players puuid
  · rw [aside.next]
    exact agrees.next
  · rw [aside.members]
    exact agrees.cohort pid
  · rw [aside.sightings]
    exact agrees.outsiders pid
  · rw [aside.samples]
    exact agrees.samples platform

/-- The sight of an outsider changes both alike. -/
theorem sight_agrees (tsMs : Nat) (growthPaused : Bool) {found : Ram × Tables}
    (agrees : Agrees found.1 found.2) (pid : Nat) :
    Agrees (sight tsMs growthPaused found pid).1 (sight tsMs growthPaused found pid).2 := by
  unfold sight
  split
  · exact agrees
  · simp only
    split
    · refine ⟨agrees.players, agrees.next, fun other => ?_, fun other => ?_, agrees.samples⟩
      · rw [Finset.mem_insert, Table.get_insert, agrees.cohort]
        split
        · next same => simp [same]
        · next different => simp [different]
      · rw [Table.get_remove, Table.get_remove, agrees.outsiders]
    · refine ⟨agrees.players, agrees.next, agrees.cohort, fun other => ?_, agrees.samples⟩
      simp only [Table.get_insert, agrees.outsiders]

/-- New members are in the memory and in the table. -/
theorem Agrees.enrolled (agrees : Agrees ram tables) (nowMs source : Nat) (new : List Nat) :
    Agrees (new.foldl Ram.enrol ram) (enrolAll nowMs source new tables) := by
  induction new generalizing ram tables with
  | nil => exact agrees
  | cons pid new ih =>
      apply ih
      refine ⟨agrees.players, agrees.next, fun other => ?_, fun other => ?_, agrees.samples⟩
      · rw [Ram.enrol, Finset.mem_insert, Table.get_insert, agrees.cohort]
        split
        · next same => simp [same]
        · next different => simp [different]
      · rw [Ram.enrol, Table.get_remove, Table.get_remove, agrees.outsiders]

/-- The effects of a match change both alike. -/
theorem withMatch_agrees {state : State} (agrees : Agrees state.ram state.working)
    (platform : String) (gameId : UInt64) (tsMs : Nat) (pids : List Nat) :
    Agrees (state.withMatch platform gameId tsMs pids).ram
      (state.withMatch platform gameId tsMs pids).working := by
  obtain ⟨cohort, seen, members, outsiders⟩ := withMatch_rest state platform gameId tsMs pids
  unfold State.withMatch at cohort seen members outsiders ⊢
  obtain ⟨players, next, rows, -, -⟩ := withValid_alike
    { state with working := (state.working.tracked platform gameId tsMs pids).1 } platform
    (state.working.tracked platform gameId tsMs pids).2
  have samples := withValid_samples
    { state with working := (state.working.tracked platform gameId tsMs pids).1 }
    (state.working.tracked platform gameId tsMs pids).2 (agrees.samples platform)
  refine ⟨fun puuid => ?_, ?_, fun pid => ?_, fun pid => ?_, fun other => ?_⟩
  · rw [players, rows]
    exact agrees.players puuid
  · rw [next, Ram.load, rows]
    exact agrees.next
  · rw [cohort, members]
    exact agrees.cohort pid
  · rw [seen, outsiders]
    exact agrees.outsiders pid
  · rw [(samples other).1, (samples other).2]
    exact congrArg (· + _) (agrees.samples other)

/-- After a match the memory agrees with the tables, if it did before. -/
theorem Match.committed_agrees (given : Match) {state : State}
    (agrees : Agrees state.ram state.tables) :
    Agrees (given.committed state).ram (given.committed state).tables := by
  have entered : Agrees (given.entered state).ram (given.entered state).working :=
    agrees.assign given.puuids
  show Agrees (given.inTxn state).ram (given.inTxn state).working
  unfold inTxn effects
  split
  · exact ⟨entered.players, entered.next, entered.cohort, entered.outsiders, entered.samples⟩
  · split
    · apply withMatch_agrees
      exact List.foldlRecOn (given.pids state.ram) _
        (motive := fun found : Ram × Tables => Agrees found.1 found.2) entered
        fun _ held pid _ => sight_agrees given.tsMs given.growthPaused held pid
    · exact entered

end Ends

/-! ## What is archived -/

/-- The same matches are archived. -/
def SameStored (before after : State) : Prop := after.stored = before.stored

instance : Std.Refl SameStored := ⟨fun _ => rfl⟩

instance : IsTrans State SameStored := ⟨fun _ _ _ one two => two.trans one⟩

section Stored

/-- A checkpoint stores nothing. -/
theorem durableCheckpoint_stored (nowMs : Nat) : Leaves SameStored (durableCheckpoint nowMs) := by
  intro before
  refine (durableCheckpoint_meets nowMs before).mono (fun _ after here => ?_) fun _ _ halted =>
    halted.outside.stored
  rw [here]
  rfl

/-- Work on the files stores nothing. -/
theorem onFiles_stored {α : Type} (place : Place) (action : Fs File α) :
    Leaves SameStored (onFiles place action) :=
  onFiles_leaves place action fun _ _ => rfl

/-- A writer that is set stores nothing. -/
theorem setWriter_stored (platform : String) (writer : Writer) :
    Leaves SameStored (setWriter platform writer) := by
  unfold setWriter setRam
  exact .modify fun _ => rfl

/-- A roll of the segments stores nothing. -/
theorem rollIfNeeded_stored (platform : String) (clock : Clock) :
    Leaves SameStored (rollIfNeeded codecs platform clock) := by
  refine (Leaves.gets _).bind fun found => ?_
  cases found with
  | none => exact .pure _
  | some writer =>
      simp only
      split
      · exact .pure _
      · exact (durableCheckpoint_stored _).bind fun _ => (onFiles_stored _ _).bind fun _ =>
          (setWriter_stored _ _).bind fun _ =>
          (onFiles_stored _ _).bind fun _ => setWriter_stored _ _

/-- A writer that is opened stores nothing. -/
theorem openWriter_stored (platform : String) (clock : Clock) :
    Leaves SameStored (openWriter platform clock) := by
  refine (Leaves.gets _).bind fun found => ?_
  cases found with
  | some writer => exact .pure _
  | none =>
      exact (onFiles_stored _ _).bind fun _ => (setWriter_stored _ _).bind fun _ => .pure _

variable {codecs}

/-- One record more, at one place. -/
theorem archive_appends (record : MatchRecord) (puuids : List String) (clock : Clock)
    (state : State) :
    Meets (archive codecs record puuids clock) state
      (fun _ after => ∃ place, after.stored =
        Function.update state.stored place (state.stored place ++ [⟨record, puuids⟩]))
      fun _ _ => True := by
  have rolled := (rollIfNeeded_stored codecs record.platform clock state).mono
    (fun _ after (same : after.stored = state.stored) => same) fun _ _ _ => trivial
  refine rolled.bind fun _ between same => ?_
  have opened := (openWriter_stored record.platform clock between).mono
    (fun _ after (same : after.stored = between.stored) => same) fun _ _ _ => trivial
  refine opened.bind fun writer between' same' => ?_
  have appended : Meets (appendRecord record.platform writer record puuids) between'
      (fun _ after => ∃ place, after.stored =
        Function.update state.stored place (state.stored place ++ [⟨record, puuids⟩]))
      fun _ _ => True := by
    unfold appendRecord setWriter setRam
    refine Meets.modify_bind (Meets.modify ⟨(record.platform, writer.date), ?_⟩)
    rw [← same, ← same']
  refine appended.bind fun _ _ here => ?_
  unfold markSeen setRam
  exact Meets.modify here

/-- The ids that are filled in change no length. -/
theorem length_fillPlayerIds (parts : List Participant) (ids : List Nat) :
    (fillPlayerIds parts ids).length = parts.length := by
  induction parts generalizing ids with
  | nil => rw [fillPlayerIds.eq_def]
  | cons first parts ih =>
      cases ids with
      | nil => rfl
      | cons id ids => rw [fillPlayerIds, List.length_cons, List.length_cons, ih]

/-- Slots are filled with the ids, in order. -/
theorem fillPlayerIds_filled {parts : List Participant} {ids : List Nat} {slot id : Nat}
    {part : Participant} (here : (fillPlayerIds parts ids)[slot]? = some part)
    (takes : ids[slot]? = some id) : part.playerId = .ofNat id := by
  induction parts generalizing ids slot with
  | nil =>
      rw [fillPlayerIds.eq_def] at here
      simp at here
  | cons first parts ih =>
      cases ids with
      | nil => simp at takes
      | cons other ids =>
          cases slot with
          | zero =>
              simp only [fillPlayerIds, List.getElem?_cons_zero, Option.some.injEq] at here takes
              rw [← here, takes]
          | succ slot =>
              simp only [fillPlayerIds, List.getElem?_cons_succ] at here takes
              exact ih here takes

/-- The ids of a stored match are those of the table. -/
theorem Match.filled_mapped (given : Match) {state : State} (parsed : given.Parsed)
    (agrees : Agrees state.ram state.tables) :
    Stored.Mapped ⟨given.filled state.ram, given.puuids⟩
      (given.committed state).tables.players := by
  intro slot part here
  have bound : slot < given.puuids.length := by
    rw [← parsed, ← length_fillPlayerIds given.record.participants (given.pids state.ram)]
    exact (List.getElem?_eq_some_iff.mp here).1
  have player : given.puuids[slot]? = some given.puuids[slot] := List.getElem?_eq_getElem bound
  have inside : slot < (given.pids state.ram).length := by
    rw [Match.pids, length_assign]
    exact bound
  have takes : (given.pids state.ram)[slot]? = some (given.pids state.ram)[slot] :=
    List.getElem?_eq_getElem inside
  refine ⟨given.puuids[slot], (given.pids state.ram)[slot], player, ?_,
    fillPlayerIds_filled here takes⟩
  rw [← (given.committed_agrees agrees).players, committed_players, ← get_assign player]
  exact takes

/-- A call stores its record, with the ids of its players. -/
theorem storeMatch_appends (given : Match) (clock : Clock) (state : State) :
    Meets (storeMatch codecs given.record given.puuids given.tsMs given.growthPaused clock) state
      (fun _ after => ∃ place, after.stored = Function.update state.stored place
        (state.stored place ++ [⟨given.filled state.ram, given.puuids⟩])) fun _ _ => True := by
  refine storeMatch_of_archive (fun _ _ _ => trivial) ?_
  rw [← show (given.committed state).stored = state.stored from (given.inTxn_outside state).stored]
  exact archive_appends _ given.puuids clock _

/-- The records of a call that ends. -/
theorem storeMatch_stored {given : Match} {clock : Clock} {state next : State}
    {adopted : List (Nat × String)}
    (ends : Ends (storeMatch codecs given.record given.puuids given.tsMs given.growthPaused clock)
      state adopted next) (place : Place) :
    ∀ stored ∈ next.stored place, stored ∈ state.stored place ∨
      stored = ⟨given.filled state.ram, given.puuids⟩ := by
  obtain ⟨own, appended⟩ := ends.meets (storeMatch_appends given clock state)
  intro stored inside
  rw [appended, Function.update_apply] at inside
  split at inside
  · next here =>
      rw [here]
      exact (List.mem_append.mp inside).imp_right List.mem_singleton.mp
  · exact .inl inside

/-- **A call that ends keeps the memory in step**, and its records have ids that the tables
hold. -/
theorem CallStep.agrees {state next : State} {call : StoreCall}
    (step : CallStep codecs state call next)
    (agrees : Agrees state.ram state.tables) :
    Agrees next.ram next.tables ∧ Keeps state.ram next.ram ∧ ∀ place, ∀ stored ∈ next.stored place,
      stored ∈ state.stored place ∨ stored.Mapped next.tables.players := by
  obtain ⟨parsed, ends⟩ := step
  cases call with
  | assignPlayerIds puuids =>
      obtain ⟨ids, ends⟩ := Ends.discard ends
      have assigned := assignPlayerIds_ends puuids state
      obtain ⟨-, rfl⟩ := ends.unique assigned
      exact ⟨agrees.assign puuids, keeps_assign state.ram puuids, fun _ _ old => .inl old⟩
  | storeMatch given clock =>
      obtain ⟨adopted, ends⟩ := Ends.discard ends
      obtain ⟨-, aside⟩ := storeMatch_ends codecs ends
      have committed := given.committed_agrees agrees
      have after := committed.aside aside
      refine ⟨after, fun puuid id known => ?_, fun place stored inside => ?_⟩
      · rw [aside.players, committed_players]
        exact keeps_assign state.ram given.puuids puuid id known
      · refine (storeMatch_stored ends place stored inside).imp_right fun new => ?_
        obtain ⟨_, _, tables⟩ := aside.tables
        rw [new, tables]
        exact given.filled_mapped (parsed given clock rfl) agrees
  | cohortAddBatch players source nowMs =>
      obtain ⟨new, ends⟩ := Ends.discard ends
      obtain ⟨working, batch⟩ := cohortAddBatch_ends players source nowMs state
      obtain ⟨-, rfl⟩ := ends.unique batch
      refine ⟨agrees.enrolled nowMs source _, fun puuid id known => ?_, fun _ _ old => .inl old⟩
      rw [enrolled_players]
      exact known
  | durableCheckpoint nowMs =>
      have after : next = state.checkpointed nowMs :=
        (durableCheckpoint_meets nowMs state).ok ends
      subst after
      exact ⟨⟨agrees.players, agrees.next, agrees.cohort, agrees.outsiders, agrees.samples⟩,
        fun _ _ known => known, fun _ _ old => .inl old⟩

/-- **Later calls.** Once the memory is in step, all later records have ids that the tables hold. -/
theorem Agrees.records {state final : State} {calls : List StoreCall}
    (agrees : Agrees state.ram state.tables) (run : Run (CallStep codecs) state calls final) :
    ∀ place, ∀ stored ∈ final.stored place, stored ∈ state.stored place ∨
      stored.Mapped final.tables.players := by
  have held := run.invariant
    (fun now => Agrees now.ram now.tables ∧ ∀ place, ∀ stored ∈ now.stored place,
      stored ∈ state.stored place ∨ stored.Mapped now.tables.players)
    (fun now call next held step => ?_) ⟨agrees, fun _ _ old => .inl old⟩
  · exact held.2
  · obtain ⟨after, keeps, new⟩ := step.agrees held.1
    refine ⟨after, fun place stored inside => ?_⟩
    rcases new place stored inside with before | mapped
    · refine (held.2 place stored before).imp_right fun mapped slot part here => ?_
      obtain ⟨puuid, id, takes, known, same⟩ := mapped slot part here
      refine ⟨puuid, id, takes, ?_, same⟩
      rw [← after.players]
      rw [← held.1.players] at known
      exact keeps puuid id known
    · exact .inr mapped

end Stored

/-! ## Failures that do harm -/

/-- A player is not where it was: in the cohort, or at another count. -/
def Moved (pid : Nat) (before after : Ram) : Prop :=
  pid ∉ before.cohort ∧
    (pid ∈ after.cohort ∨ after.outsiderSeen.get pid ≠ before.outsiderSeen.get pid)

section Harm

variable {state after : State}

/-- The tables do not know of what the memory has. -/
theorem not_agrees_ahead {puuids : List String} (agrees : Agrees state.ram state.tables)
    (tables : after.tables = state.tables) (ahead : Ahead puuids state.ram after.ram) :
    ¬ Agrees after.ram after.tables := by
  intro agrees'
  obtain ⟨puuid, -, unknown, known⟩ := ahead
  rw [agrees'.players, tables, ← agrees.players, unknown] at known
  cases known

/-- A memory that has moved alone does not agree with the tables. -/
theorem not_agrees_moved {pid : Nat} (agrees : Agrees state.ram state.tables)
    (tables : after.tables = state.tables) (moved : Moved pid state.ram after.ram) :
    ¬ Agrees after.ram after.tables := by
  intro agrees'
  obtain ⟨outside, member | counted⟩ := moved
  · rw [agrees'.cohort, tables, ← agrees.cohort] at member
    exact outside member
  · rw [agrees'.outsiders, tables, ← agrees.outsiders] at counted
    exact counted rfl

/-- An assignment with an unknown player can fail at its begin, with the player in memory. -/
theorem assignPlayerIds_fails {puuids : List String}
    (unknown : ∃ puuid ∈ puuids, state.ram.players.get puuid = none) :
    ∃ after, Fails (assignPlayerIds puuids) state (.txn .assign .begin) after ∧
      after.tables = state.tables ∧ Ahead puuids state.ram after.ram := by
  obtain ⟨puuid, inside, new⟩ := unknown
  have known : ((state.ram.assign puuids).1.players.get puuid).isSome := by
    obtain ⟨slot, takes⟩ := List.mem_iff_getElem?.mp inside
    have bound := (List.getElem?_eq_some_iff.mp takes).1
    rw [← get_assign takes, List.getElem?_eq_getElem (by rw [length_assign]; exact bound)]
    rfl
  have some : ¬ (state.ram.assign puuids).2.2.isEmpty = true := by
    intro none
    rw [players_assign, List.isEmpty_iff.mp none] at known
    rw [show addPlayers state.ram.players [] = state.ram.players from rfl, new] at known
    cases known
  refine ⟨{ state with ram := (state.ram.assign puuids).1 }, ?_, rfl, puuid, inside, new, known⟩
  refine .right (.gets _) rfl (.right (.modify _) rfl ?_)
  rw [if_neg some]
  exact (Fails.step _ _ _).left _

/-- A checkpoint with ranks that wait can fail, and the ranks are gone. -/
theorem durableCheckpoint_fails (nowMs : Nat) (pending : state.ram.pendingRanks ≠ []) :
    ∃ after, Fails (durableCheckpoint nowMs) state (.txn .checkpoint (.insert .ranks)) after ∧
      after.ram.pendingRanks = [] := by
  obtain ⟨first, rest, ranks⟩ := List.exists_cons_of_ne_nil pending
  refine ⟨{ state with
    working := { state.tables with checkpointMs := some nowMs }
    ram := { state.ram with pendingRanks := [] } }, ?_, rfl⟩
  refine .right (.step _ _) rfl (.right (.step _ _) rfl (.right (.step _ _) rfl
    (.right (.step _ _) rfl (.right (.gets _) rfl (.right (.modify _) rfl ?_)))))
  show Fails (insertRanks state.ram.pendingRanks >>= _) _ _ _
  rw [ranks]
  exact ((Fails.step _ _ _).left _).left _

/-- A player who is known is looked up. -/
theorem matchPlayerId_ends {puuid : String} {id : Nat}
    (known : state.ram.players.get puuid = some id) :
    Ends (matchPlayerId puuid) state id state := by
  refine Ends.bind rfl ?_
  simp only [known]
  exact rfl

/-- A match with an unknown player can fail, with the player in memory. -/
theorem matchPlayerIds_fails {puuids : List String}
    (unknown : ∃ puuid ∈ puuids, state.ram.players.get puuid = none) :
    ∃ after, Fails (matchPlayerIds puuids) state (.txn .storeMatch (.insert .players)) after := by
  induction puuids with
  | nil =>
      obtain ⟨_, inside, _⟩ := unknown
      cases inside
  | cons puuid puuids ih =>
      cases found : state.ram.players.get puuid with
      | none =>
          refine ⟨{ state with ram := state.ram.issue puuid }, ?_⟩
          refine Fails.left (.right (.gets _) rfl ?_) _
          simp only [found]
          exact .right (.modify _) rfl (Fails.left ⟨0, rfl⟩ _)
      | some id =>
          obtain ⟨other, inside, new⟩ := unknown
          have later : other ∈ puuids := by
            refine (List.mem_cons.mp inside).resolve_left fun same => ?_
            rw [same, found] at new
            cases new
          obtain ⟨after, fails⟩ := ih ⟨other, later, new⟩
          refine ⟨after, .right (paced_steps.matchPlayerId memory_any puuid)
            (matchPlayerId_ends found) (fails.left _)⟩

/-- The first operation on a player from outside the cohort fails. -/
theorem countOutsiders_fails (tsMs : Nat) (growthPaused : Bool) {players : List (Nat × String)}
    (outside : ∃ player ∈ players, player.1 ∉ state.ram.cohort) :
    ∃ op after, Fails (countOutsiders tsMs growthPaused players) state (.txn .storeMatch op) after ∧
      after.tables = state.tables ∧ ∃ pid, Moved pid state.ram after.ram := by
  induction players with
  | nil =>
      obtain ⟨_, inside, _⟩ := outside
      cases inside
  | cons player players ih =>
      obtain ⟨pid, puuid⟩ := player
      by_cases member : pid ∈ state.ram.cohort
      · obtain ⟨other, inside, away⟩ := outside
        have later : other ∈ players := by
          refine (List.mem_cons.mp inside).resolve_left fun same => away ?_
          rw [same]
          exact member
        obtain ⟨op, after, fails, rest⟩ := ih ⟨other, later, away⟩
        have first : Ends (countOutsider tsMs growthPaused pid puuid) state [] state := by
          refine Ends.bind rfl ?_
          rw [if_pos member]
          exact rfl
        exact ⟨op, after, .right (paced_steps.countOutsider memory_any _ _ _ _) first
          (fails.left _), rest⟩
      · by_cases adopts : (!growthPaused &&
            decide (adoptionThreshold ≤ (state.ram.outsiderSeen.get pid).getD 0 + 1)) = true
        · have counted : (state.ram.outsiderSeen.get pid).isSome := by
            by_contra none
            rw [Option.not_isSome_iff_eq_none] at none
            simp [none, adoptionThreshold] at adopts
          refine ⟨.remove .outsider,
            { state with
              ram := { state.ram with outsiderSeen := state.ram.outsiderSeen.remove pid } },
            .left (.right (.gets _) rfl ?_) _, rfl, pid, member, .inr fun same => ?_⟩
          · simp only [if_neg member, if_pos adopts]
            exact .right (.modify _) rfl (Fails.left ⟨0, rfl⟩ _)
          · rw [Table.get_remove, if_pos rfl] at same
            rw [← same] at counted
            cases counted
        · refine ⟨.insert .outsider,
            { state with
              ram := { state.ram with
                outsiderSeen := state.ram.outsiderSeen.insert pid
                  ((state.ram.outsiderSeen.get pid).getD 0 + 1) } },
            .left (.right (.gets _) rfl ?_) _, rfl, pid, member, .inr fun same => ?_⟩
          · simp only [if_neg member, if_neg adopts]
            exact .right (.modify _) rfl (Fails.left ⟨0, rfl⟩ _)
          · rw [Table.get_insert_self] at same
            rw [← same] at same
            have more := congrArg (fun count : Option Nat => count.getD 0) same
            simp at more

/-- The samples are counted in memory, and not in the tables. -/
theorem trackProgress_fails (platform : String) (gameId : UInt64) (tsMs : Nat) (pids : List Nat)
    (some : (state.working.tracked platform gameId tsMs pids).2 ≠ 0) :
    ∃ after, Fails (trackProgress platform gameId tsMs pids) state
        (.txn .storeMatch (.openTable .metadata)) after ∧
      after.tables = state.tables ∧ after.ram =
        state.ram.addValid platform (state.working.tracked platform gameId tsMs pids).2 := by
  let entered : State :=
    { state with
      working := { state.working with
        progress := state.working.progress.insert (platform, gameId)
          (newProgress (state.working.counts tsMs pids)) } }
  let written : State :=
    { entered with
      working := { entered.working with
        playerTl := enterTimeline gameId tsMs 0 pids entered.working.playerTl } }
  let credited := creditAll platform (written.working.later tsMs) pids
    (written.working.progress, (full (newProgress (state.working.counts tsMs pids))).toNat)
  have counts := (paced_steps.predecessors tsMs pids).ends (predecessors_meets tsMs pids state)
  have writes : Ends (writeTimeline gameId tsMs 0 pids) entered () written :=
    (paced_steps.writeTimeline gameId tsMs 0 pids).ends
      ((writeTimeline_meets gameId tsMs 0 pids entered).mono (fun _ _ here => ⟨rfl, here⟩)
        fun _ _ stopped => stopped)
  have credits := (paced_steps.creditPlayers platform tsMs pids _).ends
    (creditPlayers_meets platform tsMs pids
      (full (newProgress (state.working.counts tsMs pids))).toNat written)
  refine ⟨{ written.withProgress credited.1 with ram := state.ram.addValid platform credited.2 },
    ?_, rfl, rfl⟩
  refine .right (.step _ _) rfl (.right (.step _ _) rfl
    (.right (paced_steps.predecessors _ _) counts
    (.right (.step _ _) rfl (.right (paced_steps.writeTimeline _ _ _ _) writes
      (.right (paced_steps.creditPlayers _ _ _ _) credits ?_)))))
  have more : credited.2 ≠ 0 := some
  unfold addValidSamples
  rw [if_neg more]
  exact .right (.modify _) rfl (Fails.left ⟨0, rfl⟩ _)

/-! ### Calls of `store_match` -/

variable {codecs} {given : Match} {clock : Clock}

/-- A player's row cannot be written. -/
theorem storeMatch_fails_unknown
    (unknown : ∃ puuid ∈ given.puuids, state.ram.players.get puuid = none) :
    ∃ after, Fails (storeMatch codecs given.record given.puuids given.tsMs given.growthPaused clock)
        state (.txn .storeMatch (.insert .players)) after ∧
      after.tables = state.tables ∧ Ahead given.puuids state.ram after.ram := by
  have opened : ∃ puuid ∈ given.puuids,
      ({ state with working := state.tables } : State).ram.players.get puuid = none := unknown
  obtain ⟨after, fails⟩ := matchPlayerIds_fails opened
  obtain ⟨steps, run⟩ := fails
  have stopped := (matchPlayerIds_meets given.puuids _).error run
  obtain ⟨-, -, ahead⟩ := stopped.failed _ rfl
  refine ⟨after, .left ?_ _, stopped.outside.tables, ahead⟩
  exact .right (.step _ _) rfl (.right (.step _ _) rfl (.right (.ask _ _) rfl
    (.right (.step _ _) rfl (.right (.step _ _) rfl (Fails.left ⟨steps, run⟩ _)))))

/-- The state of a match whose players are all known. -/
theorem entered_known (known : ∀ puuid ∈ given.puuids, (state.ram.players.get puuid).isSome) :
    given.entered state = { state with working := state.tables } := by
  obtain ⟨same, none⟩ := assign_of_known known
  rw [Match.entered, State.withPlayers]
  simp only [same, none]
  rfl

/-- A failure of the effects is one of the call. -/
theorem storeMatch_fails_effects {site : Site}
    (fails : Fails (matchEffects given.record given.puuids given.tsMs given.growthPaused
      (state.tables.progress.get given.key).isSome (given.pids state.ram)) (given.entered state)
        site after) :
    Fails (storeMatch codecs given.record given.puuids given.tsMs given.growthPaused clock) state
      site after := by
  have players : Ends (matchPlayerIds given.puuids) { state with working := state.tables }
      (given.pids state.ram) (given.entered state) :=
    (paced_steps.matchPlayerIds memory_any given.puuids).ends
      (matchPlayerIds_meets given.puuids _)
  refine .left (.right (.step _ _) rfl (.right (.step _ _) rfl (.right (.ask _ _) rfl ?_))) _
  exact .right (.step _ _) rfl (.right (.step _ _) rfl
    (.right (paced_steps.matchPlayerIds memory_any _) players (fails.left _)))

/-- An outsider cannot be counted. -/
theorem storeMatch_fails_outsider
    (known : ∀ puuid ∈ given.puuids, (state.ram.players.get puuid).isSome)
    (new : (state.tables.progress.get given.key).isSome = false)
    (real : isRemake given.record = false)
    (outside : ∃ pid ∈ given.pids state.ram, pid ∉ state.ram.cohort) :
    ∃ op after, Fails (storeMatch codecs given.record given.puuids given.tsMs given.growthPaused
        clock) state (.txn .storeMatch op) after ∧
      after.tables = state.tables ∧ ∃ pid, Moved pid state.ram after.ram := by
  have length : (given.pids state.ram).length = given.puuids.length :=
    length_assign state.ram given.puuids
  have zipped : ∃ player ∈ (given.pids state.ram).zip given.puuids,
      player.1 ∉ ({ state with working := state.tables } : State).ram.cohort := by
    obtain ⟨pid, inside, away⟩ := outside
    rw [← List.map_fst_zip (Nat.le_of_eq length)] at inside
    obtain ⟨player, there, rfl⟩ := List.mem_map.mp inside
    exact ⟨player, there, away⟩
  obtain ⟨op, after, fails, tables, moved⟩ := countOutsiders_fails given.tsMs given.growthPaused
    zipped
  refine ⟨op, after, storeMatch_fails_effects ?_, tables, moved⟩
  rw [entered_known known, matchEffects, new, real]
  exact .right (.step _ _) rfl (.right (.step _ _) rfl (fails.left _))

/-- Members are not counted. -/
theorem sight_members_idle (tsMs : Nat) (growthPaused : Bool) {pids : List Nat}
    {found : Ram × Tables} (members : ∀ pid ∈ pids, pid ∈ found.1.cohort) :
    pids.foldl (sight tsMs growthPaused) found = found := by
  induction pids with
  | nil => rfl
  | cons pid pids ih =>
      have here : sight tsMs growthPaused found pid = found := by
        rw [sight, if_pos (members pid List.mem_cons_self)]
      rw [List.foldl_cons, here]
      exact ih fun other inside => members other (List.mem_cons_of_mem _ inside)

/-- Members are not counted as outsiders. -/
theorem sighted_members (given : Match) {pids : List Nat} {state : State}
    (members : ∀ pid ∈ pids, pid ∈ state.ram.cohort) : given.sighted pids state = state := by
  rw [Match.sighted, State.withSightings, sight_members_idle _ _ members]

/-- The new samples cannot be written. -/
theorem storeMatch_fails_valid
    (known : ∀ puuid ∈ given.puuids, (state.ram.players.get puuid).isSome)
    (new : (state.tables.progress.get given.key).isSome = false)
    (real : isRemake given.record = false)
    (members : ∀ pid ∈ given.pids state.ram, pid ∈ state.ram.cohort)
    (some : given.newlyValid (given.pids state.ram) state.tables ≠ 0) :
    ∃ after, Fails (storeMatch codecs given.record given.puuids given.tsMs given.growthPaused clock)
        state (.txn .storeMatch (.openTable .metadata)) after ∧
      after.tables = state.tables ∧ after.ram = state.ram.addValid given.record.platform
        (given.newlyValid (given.pids state.ram) state.tables) := by
  let opened : State := { state with working := state.tables }
  have entered : given.entered state = opened := entered_known known
  have counted : Ends (countOutsiders given.tsMs given.growthPaused
      ((given.pids state.ram).zip given.puuids)) opened
      (adoptedBy given.tsMs given.growthPaused ((given.pids state.ram).zip given.puuids)
        (opened.ram, opened.working)) opened := by
    have length : (given.pids state.ram).length = given.puuids.length :=
      length_assign state.ram given.puuids
    have ends := countOutsiders_ends given.tsMs given.growthPaused
      ((given.pids state.ram).zip given.puuids) opened
    have idle : given.sighted (given.pids state.ram) opened = opened :=
      sighted_members given members
    rw [List.map_fst_zip (Nat.le_of_eq length),
      show opened.withSightings given.tsMs given.growthPaused _ = opened from idle] at ends
    exact ends
  have tracks : (opened.working.tracked given.record.platform given.record.gameId given.tsMs
      (given.pids state.ram)).2 ≠ 0 := some
  obtain ⟨after, fails, tables, ram⟩ := trackProgress_fails given.record.platform
    given.record.gameId given.tsMs (given.pids state.ram) tracks
  refine ⟨after, storeMatch_fails_effects ?_, tables, ram⟩
  rw [entered, matchEffects, new, real]
  exact .right (.step _ _) rfl (.right (.step _ _) rfl
    (.right (paced_steps.countOutsiders memory_any _ _ _) counted (fails.left _)))

/-- The checkpoint of a roll drains the buffer, and fails. -/
theorem storeMatch_fails_roll (rolls : state.ram.Rolls given.record.platform clock)
    (pending : state.ram.pendingRanks ≠ []) :
    ∃ after, Fails (storeMatch codecs given.record given.puuids given.tsMs given.growthPaused clock)
        state (.txn .checkpoint (.insert .ranks)) after ∧ after.ram.pendingRanks = [] := by
  obtain ⟨writer, open', date⟩ := rolls
  have apart := given.committed_apart state
  have pending' : (given.committed state).ram.pendingRanks ≠ [] := by
    rw [show (given.committed state).ram.pendingRanks = _ from apart.pendingRanks]
    exact pending
  obtain ⟨after, fails, drained⟩ := durableCheckpoint_fails clock.nowMs pending'
  refine ⟨after, .right (paced_steps.matchTxn memory_any _ _ _ _) (given.txn_ends state)
    (.left (.left ?_ _) _), drained⟩
  refine .right (.gets _) rfl ?_
  have found : (given.committed state).ram.writers.get (given.filled state.ram).platform =
      some writer := by
    rw [show (given.committed state).ram.writers = _ from apart.writers]
    exact open'
  simp only [found, if_neg date]
  exact fails.left _

end Harm

/-! ## Failures that do none -/

section Harmless

variable {state : State} {given : Match} {clock : Clock}

/-- Only operations on the files fail. -/
def FilesOnly {α : Type} (program : Act α) : Prop :=
  ∀ before, Meets program before (fun _ _ => True) fun halt _ =>
    ∀ txn op, halt ≠ .failed (.txn txn op)

/-- Two parts that work on files only. -/
theorem FilesOnly.bind {α β : Type} {first : Act α} {second : α → Act β} (left : FilesOnly first)
    (right : ∀ value, FilesOnly (second value)) : FilesOnly (first >>= second) :=
  fun before => (left before).bind fun value between _ => right value between

/-- Work on the files of a place is work on files only. -/
theorem onFiles_filesOnly {α : Type} (place : Place) (action : Fs File α) :
    FilesOnly (onFiles place action) := by
  intro before cut
  unfold onFiles
  simp only
  rcases (action ⟨(before.segments place).files, cut, []⟩) with ⟨stop | value, after⟩
  · intro txn op same
    cases stop with
    | crashed => cases same
    | failed err => cases same
  · exact trivial

/-- A writer that is set is work on files only. -/
theorem setWriter_filesOnly (platform : String) (writer : Writer) :
    FilesOnly (setWriter platform writer) := by
  unfold setWriter setRam
  exact fun _ => Meets.modify trivial

/-- A writer that is opened is work on files only. -/
theorem openWriter_filesOnly (platform : String) (clock : Clock) :
    FilesOnly (openWriter platform clock) := by
  intro before
  refine Meets.gets_bind ?_
  cases before.ram.writers.get platform with
  | some writer => exact Meets.pure trivial
  | none =>
      exact ((onFiles_filesOnly _ _).bind fun _ => (setWriter_filesOnly _ _).bind fun _ =>
        fun _ => Meets.pure trivial) before

/-- A failed transaction leaves the memory in step, and the buffer as it was. -/
def Fine (before : State) (halt : Halt Site) (after : State) : Prop :=
  ∀ txn op, halt = .failed (.txn txn op) → Agrees after.ram after.tables ∧
    after.ram.pendingRanks = before.ram.pendingRanks

/-- A checkpoint without ranks is fine, whether it fails or not. -/
theorem durableCheckpoint_fine (nowMs : Nat) (agrees : Agrees state.ram state.tables)
    (none : state.ram.pendingRanks = []) :
    Meets (durableCheckpoint nowMs) state (fun _ _ => True) (Fine state) := by
  refine (durableCheckpoint_meets nowMs state).mono (fun _ _ _ => trivial) fun _ after halted => ?_
  intro txn op _
  rw [halted.outside.tables]
  rcases halted.ram with same | drained
  · rw [same]
    exact ⟨agrees, rfl⟩
  · rw [drained, none]
    exact ⟨⟨agrees.players, agrees.next, agrees.cohort, agrees.outsiders, agrees.samples⟩, rfl⟩

/-- New members are written in the open transaction only. -/
theorem insertCohort_meets (nowMs source : Nat) (new : List Nat) (before : State)
    (outside : Outside state before) (ram : before.ram = state.ram) :
    Meets (insertCohort nowMs source new) before
      (fun _ after => Outside state after ∧ after.ram = state.ram) fun _ after =>
        Outside state after ∧ after.ram = state.ram := by
  induction new generalizing before with
  | nil => exact Meets.pure ⟨outside, ram⟩
  | cons pid new ih =>
      have same : ∀ working, Outside state { before with working := working } := fun _ =>
        ⟨outside.tables, outside.durable, outside.segments, outside.stored⟩
      exact Meets.step_bind ⟨outside, ram⟩ ⟨outside, ram⟩
        (Meets.step_bind ⟨same _, ram⟩ ⟨same _, ram⟩ (ih _ (same _) ram))

/-- **The batch waits for its commit.** -/
theorem cohortAddBatch_fine (players : List Nat) (source nowMs : Nat)
    (agrees : Agrees state.ram state.tables) :
    Meets (cohortAddBatch players source nowMs) state (fun _ _ => True) (Fine state) := by
  have meets : Meets (cohortAddBatch players source nowMs) state (fun _ _ => True) fun _ after =>
      Outside state after ∧ after.ram = state.ram := by
    refine Meets.gets_bind ?_
    split
    · exact Meets.pure trivial
    · have opened : Outside state { state with working := state.tables } := ⟨rfl, rfl, rfl, rfl⟩
      refine Meets.step_bind ⟨.refl _, rfl⟩ ⟨.refl _, rfl⟩ (Meets.step_bind ⟨opened, rfl⟩
        ⟨opened, rfl⟩ (Meets.step_bind ⟨opened, rfl⟩ ⟨opened, rfl⟩ ?_))
      refine (insertCohort_meets nowMs source _ _ opened rfl).bind fun _ between here => ?_
      exact Meets.step_bind here here (Meets.modify_bind (Meets.pure trivial))
  refine meets.mono (fun _ _ here => here) fun _ after here txn op _ => ?_
  rw [here.1.tables, here.2]
  exact ⟨agrees, rfl⟩

/-- The memory after a failure is the memory before the call. -/
theorem Match.Failed.ram {site : Site} {ram : Ram} (failed : given.Failed state site ram)
    (known : ∀ puuid ∈ given.puuids, (state.ram.players.get puuid).isSome)
    (idle : (state.tables.progress.get given.key).isSome = true ∨ isRemake given.record = true ∨
      (∀ pid ∈ given.pids state.ram, pid ∈ state.ram.cohort) ∧
        given.newlyValid (given.pids state.ram) state.tables = 0) : ram = state.ram := by
  have entered := entered_known known
  cases failed with
  | early => rfl
  | player failed =>
      obtain ⟨-, -, puuid, inside, unknown, -⟩ := failed
      have here := known puuid inside
      rw [unknown] at here
      cases here
  | effects failed =>
      obtain ⟨new, failed⟩ := failed
      rw [entered] at failed
      split at failed
      · exact failed.2
      · next real =>
          rw [new] at idle
          obtain ⟨members, valid⟩ := (idle.resolve_left Bool.false_ne_true).resolve_left real
          have sighted : given.sighted (given.pids state.ram)
              { state with working := state.tables } = { state with working := state.tables } :=
            sighted_members given members
          rw [sighted] at failed
          rcases failed with quiet | sighting | quiet | ⟨some, -⟩
          · exact quiet.2
          · obtain ⟨pid, inside, outside⟩ := sighting.outside
            exact (outside (members pid inside)).elim
          · exact quiet.2
          · exact (some valid).elim
  | commit =>
      rw [Match.inTxn, Match.effects, entered]
      split
      · rfl
      · next kind =>
          split
          · next new =>
              rw [Bool.not_eq_true'] at new
              have real : ¬ isRemake given.record = true := by
                intro remake
                simp [remake, new] at kind
              rw [new] at idle
              obtain ⟨members, valid⟩ := (idle.resolve_left Bool.false_ne_true).resolve_left real
              have sighted : given.sighted (given.pids state.ram)
                  { state with working := state.tables } = { state with working := state.tables } :=
                sighted_members given members
              have none : (state.tables.tracked given.record.platform given.record.gameId
                  given.tsMs (given.pids state.ram)).2 = 0 := valid
              rw [sighted, State.withMatch, none]
              rfl
          · rfl

/-- The archive is fine, whether it fails or not. -/
theorem archive_fine {record : MatchRecord} {puuids : List String}
    (agrees : Agrees state.ram state.tables)
    (quiet : state.ram.pendingRanks = [] ∨ ¬ state.ram.Rolls record.platform clock) :
    Meets (archive codecs record puuids clock) state (fun _ _ => True) (Fine state) := by
  have never : ∀ {α : Type} {program : Act α} {before : State}, FilesOnly program →
      Meets program before (fun _ _ => True) (Fine state) := fun files =>
    (files _).mono (fun _ _ here => here) fun _ _ other txn op same => (other txn op same).elim
  have rest : FilesOnly (do
      let writer ← openWriter record.platform clock
      appendRecord record.platform writer record puuids
      markSeen .storeMatch record.platform record.gameId) := by
    have appended : ∀ writer, FilesOnly (appendRecord record.platform writer record puuids) :=
      fun writer => (setWriter_filesOnly _ _).bind fun _ _ => Meets.modify trivial
    have marked : FilesOnly (markSeen .storeMatch record.platform record.gameId) := by
      unfold markSeen setRam
      exact fun _ => Meets.modify trivial
    exact (openWriter_filesOnly _ _).bind fun writer => (appended writer).bind fun _ => marked
  refine Meets.bind (?_ : Meets _ _ (fun _ _ => True) _) fun _ _ _ => never rest
  refine Meets.gets_bind ?_
  cases found : state.ram.writers.get record.platform with
  | none => exact Meets.pure trivial
  | some writer =>
      simp only
      split
      · exact Meets.pure trivial
      · next date =>
          have none := quiet.resolve_right fun stays => stays ⟨writer, found, date⟩
          refine (durableCheckpoint_fine clock.nowMs agrees none).bind fun _ _ _ => never ?_
          exact (onFiles_filesOnly _ _).bind fun _ => (setWriter_filesOnly _ _).bind fun _ =>
            (onFiles_filesOnly _ _).bind fun _ => setWriter_filesOnly _ _

/-- A match whose call is harmless is fine, whether it fails or not. -/
theorem storeMatch_fine (agrees : Agrees state.ram state.tables)
    (harmless : (StoreCall.storeMatch given clock).Harmless state) :
    Meets (storeMatch codecs given.record given.puuids given.tsMs given.growthPaused clock) state
      (fun _ _ => True) (Fine state) := by
  obtain ⟨known, idle, quiet⟩ := harmless
  have transaction : ∀ halt after, Stopped state (given.Failed state) halt after →
      Fine state halt after := by
    intro halt after stopped txn op same
    have ram := Match.Failed.ram (stopped.failed _ same) known idle
    rw [stopped.outside.tables, ram]
    exact ⟨agrees, rfl⟩
  refine storeMatch_of_archive transaction ?_
  have apart := given.committed_apart state
  have ranks : (given.committed state).ram.pendingRanks = state.ram.pendingRanks :=
    apart.pendingRanks
  have quiet' : (given.committed state).ram.pendingRanks = [] ∨
      ¬ (given.committed state).ram.Rolls (given.filled state.ram).platform clock := by
    rw [ranks, Ram.Rolls, show (given.committed state).ram.writers = _ from apart.writers]
    exact quiet
  have archived : Meets (archive codecs (given.filled state.ram) given.puuids clock)
      (given.committed state) (fun _ _ => True) (Fine (given.committed state)) :=
    archive_fine codecs (given.committed_agrees agrees) quiet'
  refine archived.mono (fun _ _ here => here) fun halt after fine txn op same => ?_
  rw [← ranks]
  exact fine txn op same

end Harmless

/-! ## The condition -/

/-- **Failed transactions.** Whatever operation of a transaction fails, the memory stays in step
with the tables and the buffer keeps its snapshots, if and only if the call is harmless. -/
theorem failed_calls_survive_iff (call : StoreCall) (state : State)
    (agrees : Agrees state.ram state.tables) :
    (∀ cut txn op after, call.run codecs ⟨state, cut⟩ = (.error (.failed (.txn txn op)), after) →
      Survives codecs state after.state) ↔ call.Harmless state := by
  constructor
  · intro survives
    have fails : ∀ {txn op after}, Fails (call.run codecs) state (.txn txn op) after →
        Survives codecs state after := by
      intro txn op after failed
      obtain ⟨steps, run⟩ := failed
      exact survives _ _ _ _ run
    cases call with
    | assignPlayerIds puuids =>
        intro puuid inside
        by_contra unknown
        rw [Option.not_isSome_iff_eq_none] at unknown
        obtain ⟨after, failed, tables, ahead⟩ := assignPlayerIds_fails ⟨puuid, inside, unknown⟩
        exact not_agrees_ahead agrees tables ahead (fails (failed.left _)).agrees
    | storeMatch given clock =>
        have known : ∀ puuid ∈ given.puuids, (state.ram.players.get puuid).isSome := by
          intro puuid inside
          by_contra unknown
          rw [Option.not_isSome_iff_eq_none] at unknown
          obtain ⟨after, failed, tables, ahead⟩ := storeMatch_fails_unknown
            ⟨puuid, inside, unknown⟩
          exact not_agrees_ahead agrees tables ahead (fails (failed.left _)).agrees
        refine ⟨known, ?_, ?_⟩
        · by_contra counts
          simp only [not_or, Bool.not_eq_true, not_and] at counts
          obtain ⟨new, real, counts⟩ := counts
          by_cases members : ∀ pid ∈ given.pids state.ram, pid ∈ state.ram.cohort
          · obtain ⟨after, failed, tables, ram⟩ := storeMatch_fails_valid known new real members
              (counts members)
            have samples := (fails (failed.left _)).agrees.samples given.record.platform
            rw [tables, ← agrees.samples, ram, Ram.addValid, Table.get_insert_self] at samples
            cases found : state.ram.validSamples.get given.record.platform with
            | none =>
                rw [found] at samples
                exact counts members samples
            | some total =>
                rw [found] at samples
                exact counts members (Nat.add_eq_left.mp samples)
          · simp only [not_forall] at members
            obtain ⟨pid, inside, outside⟩ := members
            obtain ⟨op, after, failed, tables, other, moved⟩ := storeMatch_fails_outsider known new
              real ⟨pid, inside, outside⟩
            exact not_agrees_moved agrees tables moved (fails (failed.left _)).agrees
        · by_contra rolls
          simp only [not_or, not_not] at rolls
          obtain ⟨after, failed, drained⟩ := storeMatch_fails_roll rolls.2 rolls.1
          have kept := (fails (failed.left _)).ranks
          rw [drained] at kept
          obtain ⟨first, rest, ranks⟩ := List.exists_cons_of_ne_nil rolls.1
          exact List.not_mem_nil (kept first (ranks ▸ List.mem_cons_self))
    | cohortAddBatch players source nowMs => exact trivial
    | durableCheckpoint nowMs =>
        by_contra pending
        obtain ⟨after, failed, drained⟩ := durableCheckpoint_fails nowMs pending
        have kept := (fails failed).ranks
        rw [drained] at kept
        obtain ⟨first, rest, ranks⟩ := List.exists_cons_of_ne_nil pending
        exact List.not_mem_nil (kept first (ranks ▸ List.mem_cons_self))
  · intro harmless cut txn op after run
    have fine : Meets (call.run codecs) state (fun _ _ => True) (Fine state) := by
      cases call with
      | assignPlayerIds puuids =>
          obtain ⟨-, none⟩ := assign_of_known harmless
          refine Meets.bind (?_ : Meets _ _ (fun _ _ => True) _) fun _ _ _ => Meets.pure trivial
          refine Meets.gets_bind (Meets.modify_bind ?_)
          rw [none]
          exact Meets.pure trivial
      | storeMatch given clock =>
          exact (storeMatch_fine codecs agrees harmless).bind fun _ _ _ => Meets.pure trivial
      | cohortAddBatch players source nowMs =>
          exact (cohortAddBatch_fine players source nowMs agrees).bind fun _ _ _ =>
            Meets.pure trivial
      | durableCheckpoint nowMs => exact durableCheckpoint_fine nowMs agrees harmless
    obtain ⟨agrees', ranks⟩ := fine.error run txn op rfl
    exact ⟨agrees', fun snapshot inside => by rw [ranks]; exact inside, fun calls final later =>
      agrees'.records later⟩

/-- An opened store agrees with its tables. -/
theorem agrees_opened (platforms : List String) :
    Agrees (opened platforms).ram (opened platforms).tables := by
  have tracks := tracks_opened platforms
  refine ⟨fun _ => rfl, rfl, mem_load_cohort platforms Tables.empty, fun _ => rfl,
    fun platform => ?_⟩
  rw [tracks.ramValid, tracks.valid]

/-- A game of two new players. -/
def pairGame : Match where
  record :=
    { shortRecord with
      gameId := 1
      platform := "EUW1"
      durationS := 1800
      participants := [⟨0, 266, 0, 4, 14, [], []⟩, ⟨0, 103, 1, 4, 14, [], []⟩] }
  puuids := ["a", "b"]
  tsMs := 1000
  growthPaused := false

def pairClock : Clock := ⟨5, "2025-01-01", "2025-01-01"⟩

/-- The store of the game, with a rank in the buffer. -/
def pairStore : State :=
  let stored := ((StoreCall.storeMatch pairGame pairClock).run shortCodecs
    ⟨opened ["EUW1"], .never⟩).2.state
  { stored with ram := { stored.ram with pendingRanks := [(1, 6, ⟨"GOLD", "II", 1, 2, 3⟩)] } }

/-- The store with one match agrees with its tables. -/
theorem pairStore_agrees : Agrees pairStore.ram pairStore.tables := by
  have step : CallStep shortCodecs (opened ["EUW1"]) (.storeMatch pairGame pairClock)
      ((StoreCall.storeMatch pairGame pairClock).run shortCodecs
        ⟨opened ["EUW1"], .never⟩).2.state := by
    refine ⟨?_, .of_eq (by decide +kernel) (by decide +kernel)⟩
    intro given clock same
    cases same
    rfl
  obtain ⟨agrees, -, -⟩ := step.agrees (agrees_opened ["EUW1"])
  exact ⟨agrees.players, agrees.next, agrees.cohort, agrees.outsiders, agrees.samples⟩

/-- The game comes again, whose players are known. A checkpoint would drain the buffer. -/
theorem failed_calls_survive_iff_pair :
    (∀ cut txn op after,
      (StoreCall.storeMatch pairGame pairClock).run shortCodecs ⟨pairStore, cut⟩ =
        (.error (.failed (.txn txn op)), after) → Survives shortCodecs pairStore after.state) ∧
    ¬ ∀ cut txn op after,
      (StoreCall.durableCheckpoint 7).run shortCodecs ⟨pairStore, cut⟩ =
        (.error (.failed (.txn txn op)), after) → Survives shortCodecs pairStore after.state := by
  constructor
  · refine (failed_calls_survive_iff shortCodecs (.storeMatch pairGame pairClock) pairStore
      pairStore_agrees).mpr ⟨?_, .inl (by decide +kernel), .inr ?_⟩
    · decide +kernel
    · intro rolls
      obtain ⟨writer, here, other⟩ := rolls
      have dated : ((pairStore.ram.writers.get "EUW1").all fun writer =>
          writer.date = pairClock.checked) = true := by decide +kernel
      rw [show pairStore.ram.writers.get "EUW1" = some writer from here, Option.all_some] at dated
      exact other (of_decide_eq_true dated)
  · intro survives
    have drained := (failed_calls_survive_iff shortCodecs (.durableCheckpoint 7) pairStore
      pairStore_agrees).mp survives
    exact List.cons_ne_nil _ _ drained

/-- The commit fails, and the memory has a player that the tables do not have. -/
theorem assignPlayerIds_out_of_step :
    ¬ ∀ (codecs : Codecs) (call : StoreCall) (state : State), Agrees state.ram state.tables →
      ∀ cut txn op after, call.run codecs ⟨state, cut⟩ = (.error (.failed (.txn txn op)), after) →
        Survives codecs state after.state := by
  intro claim
  have failed : (StoreCall.assignPlayerIds ["a"]).run shortCodecs
      ⟨opened ["EUW1"], .fail 3 0 .never⟩ = (.error (.failed (.txn .assign .commit)),
        ((StoreCall.assignPlayerIds ["a"]).run shortCodecs
          ⟨opened ["EUW1"], .fail 3 0 .never⟩).2) := rfl
  have players := (claim shortCodecs _ _ (agrees_opened ["EUW1"]) _ _ _ _ failed).agrees.players "a"
  cases players

end LolCrawler.Store
