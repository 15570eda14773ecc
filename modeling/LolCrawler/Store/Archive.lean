import LolCrawler.Store.Effects

/-! # Checkpoints and the archive

What the durable checkpoint does, and what the rest of `store_match` leaves alone:
the archive works on the segments and on the memory that belongs to them (`Aside`).
-/

namespace LolCrawler.Store

open Foundation Segment

/-! ## The durable checkpoint -/

/-- The buffered rank snapshots in their table. -/
def addRanks (ranks : Table (Nat × Nat) RankSnap) (pending : List (Nat × Nat × RankSnap)) :
    Table (Nat × Nat) RankSnap :=
  pending.foldl (fun ranks (pid, ts, snap) => ranks.insert (pid, ts) snap) ranks

/-- The tables after a checkpoint. -/
def State.checkpointTables (state : State) (nowMs : Nat) : Tables :=
  { state.tables with
    checkpointMs := some nowMs
    ranks := addRanks state.tables.ranks state.ram.pendingRanks }

/-- The state after a checkpoint: what was current is durable. -/
def State.checkpointed (state : State) (nowMs : Nat) : State :=
  { state with
    tables := state.checkpointTables nowMs
    durable := state.checkpointTables nowMs
    working := state.checkpointTables nowMs
    ram := { state.ram with pendingRanks := [] } }

/-- The operations of a checkpoint before the buffer is drained. -/
def beforeDrain : List TxnOp :=
  [.begin, .openTable .metadata, .insert .metadata, .openTable .ranks]

/-- A checkpoint that stopped: the buffer is as it was, or drained. -/
structure CheckpointHalted (before : State) (halt : Halt Site) (after : State) : Prop where
  outside : Outside before after
  ram : after.ram = before.ram ∨ after.ram = { before.ram with pendingRanks := [] }
  failed : ∀ site, halt = .failed site → ∃ op, site = .txn .checkpoint op ∧
    after.ram = if op ∈ beforeDrain then before.ram else { before.ram with pendingRanks := [] }

/-- The ranks that wait are written, and are gone from the memory. -/
theorem insertRanks_meets (before : State) (pending : List (Nat × Nat × RankSnap)) (state : State)
    (outside : Outside before state)
    (drained : state.ram = { before.ram with pendingRanks := [] }) :
    Meets (insertRanks pending) state
      (fun _ after => after =
        { state with
          working := { state.working with ranks := addRanks state.working.ranks pending } })
      (CheckpointHalted before) := by
  induction pending generalizing state with
  | nil => exact Meets.pure rfl
  | cons first pending ih =>
      obtain ⟨pid, ts, snap⟩ := first
      refine Meets.step_bind ⟨outside, .inr drained, nofun⟩ ⟨outside, .inr drained, ?_⟩ ?_
      · rintro site ⟨⟩
        exact ⟨_, rfl, drained⟩
      · exact ih _ ⟨outside.tables, outside.durable, outside.segments, outside.stored⟩ drained

/-- **The durable checkpoint** ends in the checkpointed state, or a crash or a failure halts it. -/
theorem durableCheckpoint_meets (nowMs : Nat) (before : State) :
    Meets (durableCheckpoint nowMs) before (fun _ after => after = before.checkpointed nowMs)
      (CheckpointHalted before) := by
  have quiet : ∀ {op : TxnOp} {state : State}, op ∈ beforeDrain → Outside before state →
      state.ram = before.ram → CheckpointHalted before (.failed (.txn .checkpoint op)) state := by
    intro op state early outside same
    refine ⟨outside, .inl same, ?_⟩
    rintro site ⟨⟩
    exact ⟨op, rfl, by rw [if_pos early, same]⟩
  unfold durableCheckpoint
  refine Meets.step_bind ⟨.refl _, .inl rfl, nofun⟩ (quiet (by decide) (.refl _) rfl) ?_
  refine Meets.step_bind ⟨⟨rfl, rfl, rfl, rfl⟩, .inl rfl, nofun⟩
    (quiet (by decide) ⟨rfl, rfl, rfl, rfl⟩ rfl) ?_
  refine Meets.step_bind ⟨⟨rfl, rfl, rfl, rfl⟩, .inl rfl, nofun⟩
    (quiet (by decide) ⟨rfl, rfl, rfl, rfl⟩ rfl) ?_
  refine Meets.step_bind ⟨⟨rfl, rfl, rfl, rfl⟩, .inl rfl, nofun⟩
    (quiet (by decide) ⟨rfl, rfl, rfl, rfl⟩ rfl) ?_
  refine Meets.gets_bind (Meets.modify_bind ?_)
  refine Meets.bind (insertRanks_meets before _ _ ?_ ?_) fun _ between here => ?_
  · exact ⟨rfl, rfl, rfl, rfl⟩
  · rfl
  · rw [here]
    refine Meets.step rfl ⟨⟨rfl, rfl, rfl, rfl⟩, .inr rfl, nofun⟩
      ⟨⟨rfl, rfl, rfl, rfl⟩, .inr rfl, ?_⟩
    rintro site ⟨⟩
    exact ⟨_, rfl, rfl⟩

/-! ## What the archive leaves alone -/

/-- What checkpoints and the segments may change: the buffers in memory, the time and the ranks in
the tables, and what is durable. -/
structure Archiving (before after : State) : Prop where
  ram : ∃ writers pendingRanks,
    after.ram = { before.ram with writers := writers, pendingRanks := pendingRanks }
  tables : ∃ checkpointMs ranks,
    after.tables = { before.tables with checkpointMs := checkpointMs, ranks := ranks }
  durable : after.durable = before.durable ∨ ∃ checkpointMs ranks,
    after.durable = { before.tables with checkpointMs := checkpointMs, ranks := ranks }

instance : Std.Refl Archiving :=
  ⟨fun _ => ⟨⟨_, _, rfl⟩, ⟨_, _, rfl⟩, .inl rfl⟩⟩

instance : IsTrans State Archiving where
  trans first second third one two := by
    obtain ⟨_, _, ram⟩ := one.ram
    obtain ⟨writers, pendingRanks, ram'⟩ := two.ram
    obtain ⟨_, _, tables⟩ := one.tables
    obtain ⟨checkpointMs, ranks, tables'⟩ := two.tables
    refine ⟨⟨writers, pendingRanks, by rw [ram', ram]⟩,
      ⟨checkpointMs, ranks, by rw [tables', tables]⟩, ?_⟩
    rcases two.durable with same | ⟨checkpointMs, ranks, durable⟩
    · rw [same]
      exact one.durable
    · exact .inr ⟨checkpointMs, ranks, by rw [durable, tables]⟩

/-- The parts that belong to players, matches and the frontier are the same. -/
structure Aside (before after : State) : Prop where
  players : after.ram.players = before.ram.players
  next : after.ram.nextPlayerId = before.ram.nextPlayerId
  members : after.ram.cohort = before.ram.cohort
  sightings : after.ram.outsiderSeen = before.ram.outsiderSeen
  samples : after.ram.validSamples = before.ram.validSamples
  tables : ∃ checkpointMs ranks,
    after.tables = { before.tables with checkpointMs := checkpointMs, ranks := ranks }

instance : Std.Refl Aside := ⟨fun _ => ⟨rfl, rfl, rfl, rfl, rfl, _, _, rfl⟩⟩

instance : IsTrans State Aside where
  trans first second third one two := by
    obtain ⟨_, _, same⟩ := one.tables
    obtain ⟨checkpointMs, ranks, same'⟩ := two.tables
    refine ⟨two.players.trans one.players, two.next.trans one.next, two.members.trans one.members,
      two.sightings.trans one.sightings, two.samples.trans one.samples, checkpointMs, ranks, ?_⟩
    rw [same', same]

/-- What the archive changes is left aside. -/
theorem Archiving.aside {before after : State} (archiving : Archiving before after) :
    Aside before after := by
  obtain ⟨_, _, ram⟩ := archiving.ram
  exact ⟨by rw [ram], by rw [ram], by rw [ram], by rw [ram], by rw [ram], archiving.tables⟩

/-- The program leaves these parts alone, however it is cut. -/
def LeavesAside {α : Type} (program : Act α) : Prop :=
  ∀ before, Meets program before (fun _ after => Aside before after) fun _ after =>
    Aside before after

/-- What only archives leaves the rest aside. -/
theorem LeavesAside.of_archiving {α : Type} {program : Act α} (leaves : Leaves Archiving program) :
    LeavesAside program :=
  leaves.mono fun _ _ archiving => archiving.aside

section Archive

variable (codecs : Codecs)

/-- A checkpoint only archives. -/
theorem durableCheckpoint_archiving (nowMs : Nat) : Leaves Archiving (durableCheckpoint nowMs) := by
  intro before
  refine (durableCheckpoint_meets nowMs before).mono
    (fun _ after here => ?_) fun _ after halted => ?_
  · rw [here]
    exact ⟨⟨_, _, rfl⟩, ⟨_, _, rfl⟩, .inr ⟨_, _, rfl⟩⟩
  · refine ⟨?_, ⟨_, _, halted.outside.tables⟩, .inl halted.outside.durable⟩
    rcases halted.ram with same | drained
    · exact ⟨_, _, same⟩
    · exact ⟨_, _, drained⟩

/-- Work on the files only archives. -/
theorem onFiles_archiving {α : Type} (place : Place) (action : Fs File α) :
    Leaves Archiving (onFiles place action) :=
  onFiles_leaves place action fun _ _ => ⟨⟨_, _, rfl⟩, ⟨_, _, rfl⟩, .inl rfl⟩

/-- A writer that is set only archives. -/
theorem setWriter_archiving (platform : String) (writer : Writer) :
    Leaves Archiving (setWriter platform writer) := by
  unfold setWriter setRam
  exact .modify fun _ => ⟨⟨_, _, rfl⟩, ⟨_, _, rfl⟩, .inl rfl⟩

/-- A record that is appended only archives. -/
theorem appendRecord_archiving (platform : String) (writer : Writer) (record : MatchRecord)
    (puuids : List String) : Leaves Archiving (appendRecord platform writer record puuids) := by
  unfold appendRecord
  refine (setWriter_archiving _ _).bind fun _ => ?_
  exact .modify fun _ => ⟨⟨_, _, rfl⟩, ⟨_, _, rfl⟩, .inl rfl⟩

/-- A roll only archives. -/
theorem roll_archiving (platform today : String) (writer : Writer) :
    Leaves Archiving (roll codecs platform today writer) :=
  (onFiles_archiving _ _).bind fun _ => (setWriter_archiving _ _).bind fun _ =>
    (onFiles_archiving _ _).bind fun _ => setWriter_archiving _ _

/-- A roll that may not be needed only archives. -/
theorem rollIfNeeded_archiving (platform : String) (clock : Clock) :
    Leaves Archiving (rollIfNeeded codecs platform clock) := by
  refine (Leaves.gets _).bind fun found => ?_
  cases found with
  | none => exact .pure _
  | some writer =>
      simp only
      split
      · exact .pure _
      · exact (durableCheckpoint_archiving _).bind fun _ => roll_archiving codecs _ _ _

/-- A writer that is opened only archives. -/
theorem openWriter_archiving (platform : String) (clock : Clock) :
    Leaves Archiving (openWriter platform clock) := by
  refine (Leaves.gets _).bind fun found => ?_
  cases found with
  | some writer => exact .pure _
  | none =>
      exact (onFiles_archiving _ _).bind fun _ => (setWriter_archiving _ _).bind fun _ => .pure _

/-- A flush only archives. -/
theorem flushWriter_archiving (platform : String) (writer : Writer) :
    Leaves Archiving (flushWriter codecs platform writer) :=
  (onFiles_archiving _ _).bind fun _ => setWriter_archiving _ _

/-- A flush of several writers only archives. -/
theorem flushWriters_archiving (order : List String) :
    Leaves Archiving (flushWriters codecs order) := by
  induction order with
  | nil => exact .pure _
  | cons platform order ih =>
      refine (Leaves.gets _).bind fun found => ?_
      cases found with
      | none => exact ih
      | some writer => exact (flushWriter_archiving codecs _ _).bind fun _ => ih

/-- What `commit` does before it writes the bitmaps. -/
theorem checkpointFlush_archiving (nowMs : Nat) (order : List String) :
    Leaves Archiving (do
      durableCheckpoint nowMs
      flushWriters codecs order) :=
  (durableCheckpoint_archiving nowMs).bind fun _ => flushWriters_archiving codecs order

/-- A commit is a checkpoint with the flushes, and then the bitmaps. -/
theorem commit_eq (nowMs : Nat) (order : List String) :
    commit codecs nowMs order = (do
      durableCheckpoint nowMs
      flushWriters codecs order) >>= fun _ => commitBitmaps := by
  simp only [commit, bind_assoc]

/-- A mark leaves the rest aside. -/
theorem markSeen_aside (origin : Origin) (platform : String) (gameId : UInt64) :
    LeavesAside (markSeen origin platform gameId) := by
  unfold markSeen setRam
  exact Leaves.modify fun _ => ⟨rfl, rfl, rfl, rfl, rfl, _, _, rfl⟩

/-- What `archive` does before it marks the game seen. -/
theorem archiveRecord_archiving (record : MatchRecord) (puuids : List String) (clock : Clock) :
    Leaves Archiving (do
      rollIfNeeded codecs record.platform clock
      let writer ← openWriter record.platform clock
      appendRecord record.platform writer record puuids) :=
  (rollIfNeeded_archiving codecs _ _).bind fun _ => (openWriter_archiving _ _).bind fun _ =>
    appendRecord_archiving _ _ _ _

/-- The archive is a roll with the record, and then a mark. -/
theorem archive_eq (record : MatchRecord) (puuids : List String) (clock : Clock) :
    archive codecs record puuids clock = (do
      rollIfNeeded codecs record.platform clock
      let writer ← openWriter record.platform clock
      appendRecord record.platform writer record puuids) >>= fun _ =>
        markSeen .storeMatch record.platform record.gameId := by
  simp only [archive, bind_assoc]

/-- The archive leaves the rest aside. -/
theorem archive_aside (record : MatchRecord) (puuids : List String) (clock : Clock) :
    LeavesAside (archive codecs record puuids clock) := by
  rw [archive_eq]
  exact Leaves.bind (LeavesAside.of_archiving (archiveRecord_archiving codecs record puuids clock))
    fun _ => markSeen_aside _ _ _

end Archive

/-! ## The seen-bitmaps -/

/-- The bitmaps with these ones. -/
def addBitmaps (bitmaps : Table String Bitmap) (seen : List (String × Bitmap)) :
    Table String Bitmap :=
  seen.foldl (fun bitmaps entry => bitmaps.insert entry.1 entry.2) bitmaps

/-- The state after the bitmaps were written. -/
def State.withBitmaps (state : State) : State :=
  let tables :=
    { state.tables with bitmaps := addBitmaps state.tables.bitmaps state.ram.seen.entries }
  { state with
    tables := tables
    durable := tables
    working := tables
    ram := { state.ram with dirtyBitmaps := false } }

/-- The bitmaps are written in the open transaction. -/
theorem insertBitmaps_meets (seen : List (String × Bitmap)) (before state : State)
    (outside : Outside before state) (ram : state.ram = before.ram) :
    Meets (insertBitmaps seen) state
      (fun _ after => after =
        { state with
          working := { state.working with bitmaps := addBitmaps state.working.bitmaps seen } })
      fun _ after => Outside before after ∧ after.ram = before.ram := by
  induction seen generalizing state with
  | nil => exact Meets.pure rfl
  | cons entry seen ih =>
      refine Meets.step_bind ⟨outside, ram⟩ ⟨outside, ram⟩ ?_
      exact ih _ ⟨outside.tables, outside.durable, outside.segments, outside.stored⟩ ram

/-- The bitmaps are written if they are dirty, and otherwise nothing changes. -/
theorem commitBitmaps_meets (before : State) :
    Meets commitBitmaps before
      (fun _ after => after = if before.ram.dirtyBitmaps then before.withBitmaps else before)
      fun _ after => Outside before after ∧ after.ram = before.ram := by
  unfold commitBitmaps
  refine Meets.gets_bind ?_
  cases dirty : before.ram.dirtyBitmaps with
  | false =>
      simp only [Bool.false_eq_true, ↓reduceIte]
      exact Meets.pure rfl
  | true =>
      simp only [↓reduceIte]
      refine Meets.step_bind ⟨.refl _, rfl⟩ ⟨.refl _, rfl⟩ (Meets.step_bind
        ⟨⟨rfl, rfl, rfl, rfl⟩, rfl⟩ ⟨⟨rfl, rfl, rfl, rfl⟩, rfl⟩ (Meets.gets_bind ?_))
      refine Meets.bind (insertBitmaps_meets _ before _ ⟨rfl, rfl, rfl, rfl⟩ rfl) ?_
      intro _ between here
      rw [here]
      exact Meets.step_bind ⟨⟨rfl, rfl, rfl, rfl⟩, rfl⟩ ⟨⟨rfl, rfl, rfl, rfl⟩, rfl⟩
        (Meets.modify rfl)

end LolCrawler.Store
