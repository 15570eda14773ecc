import LolCrawler.Store.Flushes

/-! # Calls keep the store live

A call of an open store ends with the store live, also when its block cannot be compressed, and
wherever a crash stops it, it leaves the store backed. A checkpoint comes before every flush, so
that no block is written whose players could be lost, and the bitmaps are written last, so that no
game in them is in a block that could be lost.
-/

namespace LolCrawler.Store

open Foundation Segment Prog

variable {codecs : Codecs} {state after : State} {layouts : Place → Layout}

/-! ## The checkpoint -/

/-- The players of the tables are those of the memory. -/
theorem SamePlayers.issued {ram : Ram} {players : Table String Nat} {next : Nat}
    (same : SamePlayers ram players) (issued : Issued ram.players next) : Issued players next where
  injective := by
    intro first second id one two
    rw [← same] at one two
    exact issued.injective one two
  fresh := by
    intro puuid id here
    rw [← same] at here
    exact issued.fresh here

/-- The ranks are written, or nothing is. -/
theorem insertRanks_sturdy (pending : List (Nat × Nat × RankSnap)) :
    Sturdy (insertRanks pending) := by
  induction pending with
  | nil => exact sturdy_steps.pure _
  | cons first pending ih => exact sturdy_steps.bind (sturdy_steps.change _ _ _ trivial) fun _ => ih

/-- A checkpoint changes nothing when it fails. -/
theorem durableCheckpoint_sturdy (nowMs : Nat) : Sturdy (durableCheckpoint nowMs) :=
  sturdy_steps.bind (sturdy_steps.begin _) fun _ => sturdy_steps.bind (sturdy_steps.touch _ _)
    fun _ => sturdy_steps.bind (sturdy_steps.change _ _ _ trivial) fun _ =>
      sturdy_steps.bind (sturdy_steps.touch _ _) fun _ => sturdy_steps.bind (sturdy_steps.gets _)
        fun _ => sturdy_steps.bind (sturdy_steps.remember _ trivial) fun _ =>
          sturdy_steps.bind (insertRanks_sturdy _) fun _ => .step _ _

/-- What was current is durable, and more players than before. -/
theorem LiveAs.checkpointed (live : LiveAs codecs state layouts) (nowMs : Nat) :
    LiveAs codecs (state.checkpointed nowMs) layouts where
  laid := live.laid
  history := live.history
  issued := ⟨_, live.same.issued live.fresh⟩
  named := by
    intro place stored inside
    refine live.known place stored ?_
    rw [live.history]
    exact List.mem_append_left _ inside
  saved := by
    show Saved codecs state.tables.bitmaps state.segments layouts
    rw [live.bitmaps]
    exact live.saved
  fresh := live.fresh
  same := live.same
  grown _ _ known := known
  known := live.known
  bitmaps := rfl
  tidy := ⟨rfl, rfl⟩
  writers := live.writers
  idle := live.idle
  seen := live.seen

/-- **A checkpoint** endures every cut. -/
theorem durableCheckpoint_endures (live : LiveAs codecs state layouts) (nowMs : Nat) :
    Endures (durableCheckpoint nowMs) state
      (fun _ after => after = state.checkpointed nowMs) (State.Live codecs) (State.Backed codecs) :=
  (durableCheckpoint_sturdy nowMs).endures (durableCheckpoint_meets nowMs state)
    fun _ halted => live.toBackedAs.backed.congr halted.outside.sameDisk

/-! ## New players -/

/-- The players of a call have ids, and nothing else that matters has changed. -/
structure Admits (puuids : List String) (before after : State) : Prop
    extends SameDisk before after where
  ids : after.ram.players = (before.ram.assign puuids).1.players
  next : after.ram.nextPlayerId = (before.ram.assign puuids).1.nextPlayerId
  seen : after.ram.seen = before.ram.seen
  writers : after.ram.writers = before.ram.writers
  rows : after.tables.players =
    addPlayers before.tables.players (before.ram.assign puuids).2.2
  bitmaps : after.tables.bitmaps = before.tables.bitmaps
  tidy : after.Tidy

/-- A store that admits players is as live. -/
theorem LiveAs.admits {puuids : List String} (live : LiveAs codecs state layouts)
    (admits : Admits puuids state after) : LiveAs codecs after layouts := by
  have keeps : ∀ puuid id, state.tables.players.get puuid = some id →
      after.tables.players.get puuid = some id := by
    intro puuid id known
    rw [admits.rows]
    exact live.same.keeps puuids known
  exact
    { toBackedAs := live.toBackedAs.congr admits.toSameDisk
      fresh := by
        rw [admits.ids, admits.next]
        exact live.fresh.assign puuids
      same := by
        rw [SamePlayers, admits.ids, admits.rows]
        exact live.same.assign puuids
      grown := by
        rw [admits.durable]
        exact fun puuid id known => keeps puuid id (live.grown puuid id known)
      known := by
        rw [admits.stored]
        exact fun place stored inside => (live.known place stored inside).mono keeps
      bitmaps := by
        rw [admits.bitmaps, admits.durable]
        exact live.bitmaps
      tidy := admits.tidy
      writers := by
        rw [admits.writers, admits.segments]
        exact live.writers
      idle := by
        rw [admits.writers]
        exact live.idle
      seen := by
        simp only [Ram.bitmap, admits.seen, admits.segments]
        exact live.seen }

/-- An assignment admits the players. -/
theorem assigned_admits (state : State) (puuids : List String) (tidy : state.Tidy) :
    Admits puuids state (state.assigned puuids) := by
  have apart := assign_apart state.ram state.tables puuids state.tables.players
  refine ⟨⟨rfl, rfl, rfl⟩, rfl, rfl, apart.seen, apart.writers, rfl, rfl, ?_⟩
  by_cases none : (state.ram.assign puuids).2.2.isEmpty
  · have rows : (state.assigned puuids).tables.players = state.tables.players := by
      show addPlayers state.tables.players (state.ram.assign puuids).2.2 = _
      rw [List.isEmpty_iff.mp none]
      rfl
    have still : (state.assigned puuids).working = state.working := if_pos none
    exact ⟨by rw [still, rows, tidy.players], by rw [still, tidy.bitmaps]; rfl⟩
  · have copied : (state.assigned puuids).working = state.assignedTables puuids := if_neg none
    exact ⟨by rw [copied]; rfl, by rw [copied]; rfl⟩

/-- **An assignment of ids** endures every cut. -/
theorem assignPlayerIds_endures (live : LiveAs codecs state layouts) (puuids : List String) :
    Endures (assignPlayerIds puuids) state (fun _ => State.Live codecs) (State.Live codecs)
      (State.Backed codecs) :=
  ((sturdy_steps.assignPlayerIds (fun _ => trivial) puuids).endures
    (assignPlayerIds_meets puuids state)
    fun _ outside => live.toBackedAs.backed.congr outside.sameDisk).mono
      (fun _ _ here => here.2 ▸ (live.admits (assigned_admits state puuids live.tidy)).live)
      (fun _ here => here) fun _ here => here

/-! ## The transaction of a match -/

section Match

variable (given : Match)

/-- A match admits its players. -/
theorem committed_admits (state : State) :
    Admits given.puuids state (given.committed state) := by
  have outside := given.inTxn_outside state
  have apart := given.committed_apart state
  exact ⟨⟨outside.durable, outside.segments, outside.stored⟩, committed_players given state,
    committed_next given state, apart.seen, apart.writers, committed_playerRows given state,
    apart.bitmaps, ⟨rfl, rfl⟩⟩

/-- The record that is stored names the players it is stored for. -/
theorem filled_named (same : SamePlayers state.ram state.tables.players) :
    Stored.Named ⟨given.filled state.ram, given.puuids⟩ (given.committed state).tables.players := by
  intro slot part puuid here inside
  have bound : slot < (given.pids state.ram).length := by
    rw [Match.pids, length_assign]
    exact (List.getElem?_eq_some_iff.mp inside).1
  have takes : (given.pids state.ram)[slot]? = some (given.pids state.ram)[slot] :=
    List.getElem?_eq_getElem bound
  refine ⟨(given.pids state.ram)[slot], ?_, fillPlayerIds_filled here takes⟩
  rw [← same.committed given, committed_players, ← get_assign inside]
  exact takes

/-- The transaction of a match endures every cut. -/
theorem matchTxn_endures (live : LiveAs codecs state layouts) :
    Endures (matchTxn given.record given.puuids given.tsMs given.growthPaused) state
      (fun value after => value.1 = given.filled state.ram ∧ after = given.committed state)
      (State.Live codecs) (State.Backed codecs) :=
  (sturdy_steps.matchTxn memory_any _ _ _ _).endures (given.matchTxn_meets state)
    fun _ stopped => live.toBackedAs.backed.congr stopped.outside.sameDisk

end Match

/-! ## The archive -/

section Archive

variable {platform : String} {clock : Clock}

/-- A roll is a flush and an opening. -/
theorem roll_eq (platform today : String) (writer : Writer) :
    roll codecs platform today writer = (do
      let block ← flushAndSet codecs platform writer
      onFiles (platform, today) openFiles
      setWriter platform ⟨today, block⟩) := by
  simp only [roll, flushAndSet, bind_assoc, pure_bind]

/-- **A roll.** The checkpoint comes before the flush. -/
theorem rollIfNeeded_endures (live : LiveAs codecs state layouts)
    (fits : ∀ writer, state.ram.writers.get platform = some writer → writer.date ≠ clock.checked →
      writer.block.Fits codecs) :
    Endures (rollIfNeeded codecs platform clock) state (fun _ => State.Live codecs)
      (State.Live codecs) (State.Backed codecs) := by
  unfold rollIfNeeded
  refine Endures.gets_bind ?_
  cases found : state.ram.writers.get platform with
  | none => exact Endures.pure live.live
  | some writer =>
      simp only
      split
      · exact Endures.pure live.live
      · next another =>
          refine (durableCheckpoint_endures live clock.nowMs).bind fun _ between here => ?_
          subst here
          rw [roll_eq]
          refine (flushAndSet_endures (live.checkpointed clock.nowMs) rfl found
            (fits writer found another)).bind fun block between here => ?_
          obtain ⟨rfl, layouts', rested⟩ := here
          have rests : ∀ other, between.ram.writers.get platform = some other →
              (layouts' (platform, other.date)).waiting = [] := by
            intro other there
            rw [rested.writers, Table.get_insert_self, Option.some.injEq] at there
            rw [← there]
            exact rested.rests
          exact (openAndSet_endures rested.live rests clock.today).mono (fun _ _ here => here.1)
            (fun _ here => here) fun _ here => here

/-- The platform's writer. -/
theorem openWriter_endures (live : LiveAs codecs state layouts) :
    Endures (openWriter platform clock) state
      (fun writer after => after.Live codecs ∧ after.ram.writers.get platform = some writer)
      (State.Live codecs) (State.Backed codecs) := by
  unfold openWriter
  refine Endures.gets_bind ?_
  cases found : state.ram.writers.get platform with
  | some writer => exact Endures.pure ⟨live.live, found⟩
  | none =>
      have rests : ∀ writer, state.ram.writers.get platform = some writer →
          (layouts (platform, writer.date)).waiting = [] := by
        intro writer there
        rw [found] at there
        cases there
      have opened : (do
          onFiles (platform, clock.today) openFiles
          setWriter platform ⟨clock.today, .empty⟩
          pure (⟨clock.today, .empty⟩ : Writer)) =
            openAndSet platform clock.today >>= fun _ => pure ⟨clock.today, .empty⟩ := by
        simp only [openAndSet, bind_assoc]
      simp only [opened]
      exact (openAndSet_endures live rests clock.today).bind fun _ _ here => Endures.pure here

/-- **The archive.** A record that names its players is kept until the next flush. -/
theorem archive_endures {record : MatchRecord} {puuids : List String}
    (live : LiveAs codecs state layouts)
    (named : Stored.Named ⟨record, puuids⟩ state.tables.players)
    (fits : ∀ writer, state.ram.writers.get record.platform = some writer →
      writer.date ≠ clock.checked → writer.block.Fits codecs) :
    Endures (archive codecs record puuids clock) state (fun _ => State.Live codecs)
      (State.Live codecs) (State.Backed codecs) := by
  have players : ∀ {before after : State}, Archiving before after →
      after.tables.players = before.tables.players := by
    intro before after archiving
    obtain ⟨_, _, same⟩ := archiving.tables
    rw [same]
  unfold archive
  refine (((rollIfNeeded_endures live fits).leaves (rollIfNeeded_archiving codecs _ _)).mono
    (fun _ _ here => here) (fun _ here => here.1) fun _ here => here).bind fun _ rolled here => ?_
  obtain ⟨⟨layouts', live'⟩, archiving⟩ := here
  refine (((openWriter_endures live').leaves (openWriter_archiving _ _)).mono
    (fun _ _ here => here) (fun _ here => here.1) fun _ here => here).bind
      fun writer opened here => ?_
  obtain ⟨⟨⟨layouts'', live''⟩, found⟩, archiving'⟩ := here
  rw [← players archiving, ← players archiving'] at named
  unfold appendRecord setWriter markSeen setRam
  simp only [bind_assoc]
  exact Endures.modify_bind (Endures.modify_bind (Endures.modify (live''.append found named).live))

/-- **A stored match** endures every cut. -/
theorem storeMatch_endures (live : LiveAs codecs state layouts) (given : Match)
    (fits : ∀ writer, state.ram.writers.get given.record.platform = some writer →
      writer.date ≠ clock.checked → writer.block.Fits codecs) :
    Endures (storeMatch codecs given.record given.puuids given.tsMs given.growthPaused clock) state
      (fun _ => State.Live codecs) (State.Live codecs) (State.Backed codecs) := by
  unfold storeMatch
  refine (matchTxn_endures given live).bind fun value between here => ?_
  obtain ⟨record, adopted⟩ := value
  obtain ⟨filled, rfl⟩ := here
  have same : record = given.filled state.ram := filled
  subst same
  have admits := committed_admits given state
  refine (archive_endures (live.admits admits) (filled_named given live.same) ?_).bind
    fun _ _ here => Endures.pure here
  intro writer found
  rw [admits.writers] at found
  exact fits writer found

end Archive

/-! ## The commit -/

section Commit

/-- What the flushes of these platforms leave: their matches do not wait any more, and the other
segments are as they were. -/
structure Emptied (codecs : Codecs) (order : List String) (layouts : Place → Layout)
    (after : State) (layouts' : Place → Layout) : Prop where
  live : LiveAs codecs after layouts'
  emptied : ∀ place, (layouts' place).waiting = [] ∨
    place.1 ∉ order ∧ layouts' place = layouts place

/-- A flush endures every cut. -/
theorem flushWriter_endures {platform : String} {writer : Writer}
    (live : LiveAs codecs state layouts) (level : state.Level)
    (found : state.ram.writers.get platform = some writer) (fits : writer.block.Fits codecs) :
    Endures (flushWriter codecs platform writer) state
      (fun _ after => ∃ layouts', Rested codecs state layouts platform writer after layouts')
      (State.Live codecs) (State.Backed codecs) := by
  have same : flushWriter codecs platform writer =
      flushAndSet codecs platform writer >>= fun _ => pure () := by
    simp only [flushWriter, flushAndSet, bind_assoc, pure_bind]
    rfl
  rw [same]
  exact (flushAndSet_endures live level found fits).bind fun _ _ here => Endures.pure here.2

/-- The platform of a writer for which nothing waits counts as flushed. -/
theorem Emptied.cons {platform : String} {order : List String} {layouts' : Place → Layout}
    (emptied : Emptied codecs order layouts after layouts') (live : LiveAs codecs state layouts)
    (rests : ∀ writer, state.ram.writers.get platform = some writer →
      (layouts (platform, writer.date)).waiting = []) :
    Emptied codecs (platform :: order) layouts after layouts' := by
  refine ⟨emptied.live, fun place => ?_⟩
  obtain ⟨other, date⟩ := place
  rcases emptied.emptied (other, date) with none | ⟨absent, same⟩
  · exact .inl none
  · by_cases here : other = platform
    · subst here
      rw [same]
      exact .inl (live.none_waiting rests date)
    · exact .inr ⟨List.not_mem_cons_of_ne_of_not_mem here absent, same⟩

/-- **The flushes of a commit**, once all players are durable. -/
theorem flushWriters_endures (order : List String) (distinct : order.Nodup)
    (live : LiveAs codecs state layouts) (level : state.Level)
    (fits : ∀ platform ∈ order, ∀ writer, state.ram.writers.get platform = some writer →
      writer.block.Fits codecs) :
    Endures (flushWriters codecs order) state
      (fun _ after => ∃ layouts', Emptied codecs order layouts after layouts')
      (State.Live codecs) (State.Backed codecs) := by
  induction order generalizing state layouts with
  | nil => exact Endures.pure ⟨layouts, live, fun place => .inr ⟨List.not_mem_nil, rfl⟩⟩
  | cons platform order ih =>
      obtain ⟨absent, distinct⟩ := List.nodup_cons.mp distinct
      unfold flushWriters
      refine Endures.gets_bind ?_
      cases found : state.ram.writers.get platform with
      | none =>
          have later := ih distinct live level fun other inside =>
            fits other (List.mem_cons_of_mem _ inside)
          refine later.mono (fun _ after here => ?_) (fun _ here => here) fun _ here => here
          obtain ⟨layouts', emptied⟩ := here
          refine ⟨layouts', emptied.cons live fun writer there => ?_⟩
          rw [found] at there
          cases there
      | some writer =>
          refine (flushWriter_endures live level found
            (fits platform List.mem_cons_self writer found)).bind fun _ between here => ?_
          obtain ⟨layouts', rested⟩ := here
          have later := ih distinct rested.live rested.level fun other inside writer' there => by
            rw [rested.writers, Table.get_insert_of_ne] at there
            · exact fits other (List.mem_cons_of_mem _ inside) writer' there
            · intro same
              exact absent (same ▸ inside)
          refine later.mono (fun _ after here => ?_) (fun _ here => here) fun _ here => here
          obtain ⟨layouts'', emptied⟩ := here
          have whole : Emptied codecs (platform :: order) layouts' after layouts'' := by
            refine emptied.cons rested.live fun other there => ?_
            rw [rested.writers, Table.get_insert_self, Option.some.injEq] at there
            rw [← there]
            exact rested.rests
          refine ⟨layouts'', whole.live, fun place => (whole.emptied place).imp_right ?_⟩
          rintro ⟨outside, same⟩
          refine ⟨outside, same.trans (rested.others place fun here => outside ?_)⟩
          rw [here]
          exact List.mem_cons_self

/-- The bitmaps of the memory are durable once no match waits. -/
theorem LiveAs.withBitmaps (live : LiveAs codecs state layouts)
    (none : ∀ place, (layouts place).waiting = []) :
    LiveAs codecs state.withBitmaps layouts where
  laid := live.laid
  history := live.history
  issued := ⟨_, live.same.issued live.fresh⟩
  named := by
    intro place stored inside
    refine live.known place stored ?_
    rw [live.history]
    exact List.mem_append_left _ inside
  saved := by
    intro platform bitmap gameId found inside
    rw [withBitmaps_seen] at found
    cases held : state.ram.seen.get platform with
    | some seen =>
        rw [held, Option.some_or, Option.some.injEq] at found
        have seen : (gameId, .storeMatch) ∈ state.ram.bitmap platform := by
          rw [Ram.bitmap, held, found]
          exact inside
        obtain ⟨date, stored, here, game⟩ := live.seen platform gameId seen
        rw [none] at here
        exact ⟨date, stored, here.resolve_right List.not_mem_nil, game⟩
    | none =>
        rw [held, Option.none_or, live.bitmaps] at found
        exact live.saved platform bitmap gameId found inside
  fresh := live.fresh
  same := live.same
  grown _ _ known := known
  known := live.known
  bitmaps := rfl
  tidy := ⟨rfl, rfl⟩
  writers := live.writers
  idle := live.idle
  seen := live.seen

/-- The bitmaps are written, or nothing is. -/
theorem insertBitmaps_sturdy (seen : List (String × Bitmap)) : Sturdy (insertBitmaps seen) := by
  induction seen with
  | nil => exact sturdy_steps.pure _
  | cons entry seen ih => exact sturdy_steps.bind (sturdy_steps.change _ _ _ trivial) fun _ => ih

/-- Writing the bitmaps changes nothing when it fails. -/
theorem commitBitmaps_sturdy : Sturdy commitBitmaps := by
  refine sturdy_steps.bind (sturdy_steps.gets _) fun dirty => ?_
  split
  · exact sturdy_steps.bind (sturdy_steps.begin _) fun _ => sturdy_steps.bind
      (sturdy_steps.touch _ _) fun _ => sturdy_steps.bind (sturdy_steps.gets _) fun _ =>
        sturdy_steps.bind (insertBitmaps_sturdy _) fun _ => sturdy_steps.bind (Sturdy.step _ _)
          fun _ => sturdy_steps.remember _ trivial
  · exact sturdy_steps.pure _

/-- Writing the bitmaps endures every cut. -/
theorem commitBitmaps_endures (live : LiveAs codecs state layouts)
    (none : ∀ place, (layouts place).waiting = []) :
    Endures commitBitmaps state (fun _ => State.Live codecs) (State.Live codecs)
      (State.Backed codecs) := by
  refine (commitBitmaps_sturdy.endures (commitBitmaps_meets state) fun _ halted =>
    live.toBackedAs.backed.congr halted.1.sameDisk).mono (fun _ after here => ?_)
      (fun _ here => here) fun _ here => here
  rw [here]
  split
  · exact (live.withBitmaps none).live
  · exact live.live

/-- **A commit.** The checkpoint, the flushes, and the bitmaps last. -/
theorem commit_endures {order : List String} (live : LiveAs codecs state layouts) (nowMs : Nat)
    (all : Enumerates order fun platform => (state.ram.writers.get platform).isSome)
    (fits : ∀ platform writer, state.ram.writers.get platform = some writer →
      writer.block.Fits codecs) :
    Endures (commit codecs nowMs order) state (fun _ => State.Live codecs) (State.Live codecs)
      (State.Backed codecs) := by
  unfold commit
  refine (durableCheckpoint_endures live nowMs).bind fun _ between here => ?_
  subst here
  have live' := live.checkpointed nowMs
  refine (flushWriters_endures order all.1 live' rfl fun platform _ => fits platform).bind
    fun _ between here => ?_
  obtain ⟨layouts', emptied⟩ := here
  refine commitBitmaps_endures emptied.live fun place => ?_
  rcases emptied.emptied place with none | ⟨absent, same⟩
  · exact none
  · by_contra waits
    rw [same] at waits
    obtain ⟨writer, found, -⟩ := live.idle place waits
    exact absent ((all.2 place.1).mpr (Option.isSome_of_eq_some found))

end Commit

/-! ## The other calls -/

section Others

/-- A call that leaves the players and the matches alone. -/
theorem beside_endures {α : Type} {program : Act α} (live : LiveAs codecs state layouts)
    (sturdy : Sturdy program) (leaves : Leaves Beside program) :
    Endures program state (fun _ => State.Live codecs) (State.Live codecs)
      (State.Backed codecs) :=
  (sturdy.endures (leaves state) fun _ beside =>
    live.toBackedAs.backed.congr beside.toSameDisk).mono
      (fun _ _ beside => (live.beside beside).live) (fun _ here => here) fun _ here => here

/-- A game that `store_match` did not put there. -/
theorem LiveAs.marked (live : LiveAs codecs state layouts) (platform : String) (gameId : UInt64) :
    LiveAs codecs { state with ram := state.ram.mark .markSeen platform gameId } layouts where
  toBackedAs := live.toBackedAs.congr ⟨rfl, rfl, rfl⟩
  fresh := live.fresh
  same := live.same
  grown := live.grown
  known := live.known
  bitmaps := live.bitmaps
  tidy := ⟨live.tidy.players, live.tidy.bitmaps⟩
  writers := live.writers
  idle := live.idle
  seen := by
    intro other game inside
    refine live.seen other game ?_
    simp only [Ram.bitmap, Ram.mark, Table.get_insert] at inside
    split at inside
    · next same =>
        rw [Option.getD_some, Finset.mem_insert] at inside
        rcases inside with new | old
        · cases new
        · rw [same]
          exact old
    · exact inside

/-- A mark endures every cut. -/
theorem markSeen_endures (live : LiveAs codecs state layouts) (platform : String)
    (gameId : UInt64) :
    Endures (markSeen .markSeen platform gameId) state (fun _ => State.Live codecs)
      (State.Live codecs) (State.Backed codecs) := by
  unfold markSeen setRam
  exact Endures.modify (live.marked platform gameId).live

/-- A rank that waits endures every cut. -/
theorem addRankSnapshot_endures (live : LiveAs codecs state layouts) (pid tsMs : Nat)
    (snap : RankSnap) :
    Endures (addRankSnapshot pid tsMs snap) state (fun _ => State.Live codecs)
      (State.Live codecs) (State.Backed codecs) := by
  have beside := @beside_ram state
    (fun ram => { ram with pendingRanks := ram.pendingRanks ++ [(pid, tsMs, snap)] })
    rfl rfl rfl rfl
  unfold addRankSnapshot setRam
  exact Endures.modify (live.beside beside).live

end Others

/-! ## An opening -/

section Opening

/-- What is current is durable. -/
structure State.Fallen (state : State) : Prop where
  tables : state.tables = state.durable
  working : state.working = state.durable

/-- The store is closed: what is current is durable, and no match waits. -/
structure ClosedAs (codecs : Codecs) (state : State) (layouts : Place → Layout) : Prop
    extends BackedAs codecs state layouts, State.Fallen state where
  waiting : ∀ place, (layouts place).waiting = []

def State.Closed (codecs : Codecs) (state : State) : Prop :=
  ∃ layouts, ClosedAs codecs state layouts

/-- The memory of an opened store is read off what is durable. -/
theorem ClosedAs.loaded (closed : ClosedAs codecs state layouts) (platforms : List String) :
    LiveAs codecs
      { state with
        durable := state.tables
        working := state.tables
        ram := Ram.load platforms state.tables } layouts where
  toBackedAs := closed.toBackedAs.congr ⟨closed.tables, rfl, rfl⟩
  fresh := by
    obtain ⟨next, issued⟩ := closed.issued
    rw [← closed.tables] at issued
    exact issued.load
  same _ := rfl
  grown _ _ known := known
  known := by
    intro place stored inside
    refine closed.tables ▸ closed.named place stored ?_
    rw [closed.history, closed.waiting, List.append_nil] at inside
    exact inside
  bitmaps := rfl
  tidy := ⟨rfl, rfl⟩
  writers _ _ found := nomatch found
  idle place waits := (waits (closed.waiting place)).elim
  seen := by
    intro platform gameId inside
    rw [Ram.bitmap, load_seen] at inside
    split at inside
    · rw [closed.tables, Option.getD_some] at inside
      cases found : state.durable.bitmaps.get platform with
      | none =>
          rw [found] at inside
          cases inside
      | some bitmap =>
          rw [found, Option.getD_some] at inside
          obtain ⟨date, stored, safe, game⟩ := closed.saved platform bitmap gameId found inside
          exact ⟨date, stored, .inl safe, game⟩
    · cases inside

/-- What is durable is read, and written again. -/
structure Loads (before after : State) : Prop where
  disk : before.Fallen → SameDisk before after
  fallen : before.Fallen → after.Fallen

instance : Std.Refl Loads := ⟨fun _ => ⟨fun _ => Std.Refl.refl _, id⟩⟩

instance : IsTrans State Loads where
  trans _ _ _ one two :=
    ⟨fun fallen => IsTrans.trans _ _ _ (one.disk fallen) (two.disk (one.fallen fallen)),
      fun fallen => two.fallen (one.fallen fallen)⟩

/-- An opening loads what is durable. -/
theorem openStore_loads (platforms : List String) : Leaves Loads (openStore platforms) := by
  have begins : Leaves Loads (beginWrite .openStore) :=
    .step _ fun _ => ⟨fun _ => ⟨rfl, rfl, rfl⟩, fun fallen => ⟨fallen.tables, fallen.tables⟩⟩
  have commits : Leaves Loads (commitDurable .openStore) :=
    .step _ fun _ => ⟨fun fallen => ⟨fallen.working, rfl, rfl⟩, fun _ => ⟨rfl, rfl⟩⟩
  have remembers : ∀ edit, Leaves Loads (setRam edit) :=
    fun _ => .modify fun _ =>
      ⟨fun _ => ⟨rfl, rfl, rfl⟩, fun fallen => ⟨fallen.tables, fallen.working⟩⟩
  have reads : Leaves Loads (touch .openStore .begin) := .step _ fun state => Std.Refl.refl state
  exact begins.bind fun _ => (openTables_leaves _).bind fun _ => commits.bind fun _ =>
    reads.bind fun _ => (openTables_leaves _).bind fun _ => (Leaves.gets _).bind fun _ =>
      remembers _

end Opening

end LolCrawler.Store
