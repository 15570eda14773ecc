import LolCrawler.Store.Archive

/-! # Seen games

Which games are seen after a call. The transaction of `store_match` leaves the memory
and the tables of the archive and of the frontier alone (`Apart`), and the archive marks
the game that it stores.
-/

namespace LolCrawler.Store

open Foundation Segment Prog

/-- `is_seen` -/
def Ram.isSeen (ram : Ram) (platform : String) (gameId : UInt64) : Bool :=
  (gameId, .markSeen) ∈ ram.bitmap platform || (gameId, .storeMatch) ∈ ram.bitmap platform

/-! ## The transaction leaves the archive alone -/

/-- The memory and the tables of the archive and of the frontier are the same. -/
structure Apart (before after : Ram × Tables) : Prop where
  seen : after.1.seen = before.1.seen
  writers : after.1.writers = before.1.writers
  pendingRanks : after.1.pendingRanks = before.1.pendingRanks
  dirtyBitmaps : after.1.dirtyBitmaps = before.1.dirtyBitmaps
  checkpointMs : after.2.checkpointMs = before.2.checkpointMs
  bitmaps : after.2.bitmaps = before.2.bitmaps
  ranks : after.2.ranks = before.2.ranks
  frontier : after.2.frontier = before.2.frontier
  frontierIdx : after.2.frontierIdx = before.2.frontierIdx

/-- Nothing happens to the archive. -/
theorem Apart.refl (found : Ram × Tables) : Apart found found :=
  ⟨rfl, rfl, rfl, rfl, rfl, rfl, rfl, rfl, rfl⟩

/-- Two changes, one after the other, apart from the archive. -/
theorem Apart.trans {first second third : Ram × Tables} (one : Apart first second)
    (two : Apart second third) : Apart first third :=
  ⟨two.seen.trans one.seen, two.writers.trans one.writers, two.pendingRanks.trans one.pendingRanks,
    two.dirtyBitmaps.trans one.dirtyBitmaps, two.checkpointMs.trans one.checkpointMs,
    two.bitmaps.trans one.bitmaps, two.ranks.trans one.ranks, two.frontier.trans one.frontier,
    two.frontierIdx.trans one.frontierIdx⟩

/-- A sighting is apart from the archive. -/
theorem sight_apart_archive (tsMs : Nat) (growthPaused : Bool) (found : Ram × Tables) (pid : Nat) :
    Apart found (sight tsMs growthPaused found pid) := by
  unfold sight
  split
  · exact .refl _
  · simp only
    split
    · exact ⟨rfl, rfl, rfl, rfl, rfl, rfl, rfl, rfl, rfl⟩
    · exact ⟨rfl, rfl, rfl, rfl, rfl, rfl, rfl, rfl, rfl⟩

/-- Valid samples are apart from the archive. -/
theorem withValid_apart (state : State) (platform : String) (newlyValid : Nat) :
    Apart (state.ram, state.working) ((state.withValid platform newlyValid).ram,
      (state.withValid platform newlyValid).working) := by
  unfold State.withValid
  split
  · exact .refl _
  · exact ⟨rfl, rfl, rfl, rfl, rfl, rfl, rfl, rfl, rfl⟩

/-- The progress of a match is apart from the archive. -/
theorem withMatch_apart (state : State) (platform : String) (gameId : UInt64) (tsMs : Nat)
    (pids : List Nat) :
    Apart (state.ram, state.working) ((state.withMatch platform gameId tsMs pids).ram,
      (state.withMatch platform gameId tsMs pids).working) := by
  have tracked : Apart (state.ram, state.working)
      (state.ram, (state.working.tracked platform gameId tsMs pids).1) :=
    ⟨rfl, rfl, rfl, rfl, rfl, rfl, rfl, rfl, rfl⟩
  exact tracked.trans (withValid_apart
    { state with working := (state.working.tracked platform gameId tsMs pids).1 } _ _)

/-- New players are apart from the archive. -/
theorem assign_apart (ram : Ram) (tables : Tables) (puuids : List String)
    (players : Table String Nat) :
    Apart (ram, tables) ((ram.assign puuids).1, { tables with players := players }) := by
  rw [assign_rest]
  exact ⟨rfl, rfl, rfl, rfl, rfl, rfl, rfl, rfl, rfl⟩

namespace Match

variable (given : Match)

/-- The effects of a match are apart from the archive. -/
theorem effects_apart (alreadyStored : Bool) (pids : List Nat) (state : State) :
    Apart (state.ram, state.working)
      ((given.effects alreadyStored pids state).ram,
        (given.effects alreadyStored pids state).working) := by
  unfold effects
  split
  · exact ⟨rfl, rfl, rfl, rfl, rfl, rfl, rfl, rfl, rfl⟩
  · split
    · have sighted : Apart (state.ram, state.working)
          (pids.foldl (sight given.tsMs given.growthPaused) (state.ram, state.working)) :=
        List.foldlRecOn pids _ (motive := Apart (state.ram, state.working)) (.refl _)
          fun found held pid _ => held.trans (sight_apart_archive _ _ found pid)
      exact sighted.trans (withMatch_apart (given.sighted pids state) _ _ _ _)
    · exact .refl _

/-- **The transaction of one call** leaves the archive and the frontier alone. -/
theorem committed_apart (state : State) :
    Apart (state.ram, state.tables)
    ((given.committed state).ram, (given.committed state).tables) := by
  have entered : Apart (state.ram, state.tables) ((given.entered state).ram,
      (given.entered state).working) :=
    assign_apart state.ram state.tables given.puuids _
  exact entered.trans (given.effects_apart _ _ _)

end Match

/-! ## Marks -/

section Marks

variable {ram : Ram} {platform other : String} {gameId game : UInt64} {origin : Origin}

/-- The memory after a mark. -/
def Ram.mark (ram : Ram) (origin : Origin) (platform : String) (gameId : UInt64) : Ram :=
  { ram with
    seen := ram.seen.insert platform (insert (gameId, origin) (ram.bitmap platform))
    dirtyBitmaps := true }

/-- A mark ends, and marks the game. -/
theorem markSeen_ends (origin : Origin) (platform : String) (gameId : UInt64) (state : State) :
    Ends (markSeen origin platform gameId) state ()
      { state with ram := state.ram.mark origin platform gameId } := rfl

/-- Whether a game is seen is told by the bitmaps. -/
theorem isSeen_congr {ram' : Ram} (seen : ram'.seen = ram.seen) :
    ram'.isSeen platform gameId = ram.isSeen platform gameId := by
  rw [Ram.isSeen, Ram.isSeen, Ram.bitmap, Ram.bitmap, seen]

/-- A mark is seen, besides what was seen. -/
theorem isSeen_mark :
    (ram.mark origin platform gameId).isSeen other game = true ↔
      ram.isSeen other game = true ∨ (other, game) = (platform, gameId) := by
  have bitmap : (ram.mark origin platform gameId).bitmap other =
      if other = platform then insert (gameId, origin) (ram.bitmap platform)
      else ram.bitmap other := by
    rw [Ram.bitmap, Ram.mark, Table.get_insert]
    split
    · rfl
    · rfl
  rw [Ram.isSeen, bitmap]
  by_cases same : other = platform
  · subst same
    cases origin with
    | markSeen => simp [Ram.isSeen]; tauto
    | storeMatch => simp [Ram.isSeen]; tauto
  · simp [Ram.isSeen, same]

end Marks

/-! ## One call of `store_match` -/

variable (codecs : Codecs)

/-- The archive, and then a mark. -/
theorem archive_meets (record : MatchRecord) (puuids : List String) (clock : Clock)
    (state : State) :
    Meets (archive codecs record puuids clock) state
      (fun _ after => ∃ between, Archiving state between ∧ after = { between with
        ram := between.ram.mark .storeMatch record.platform record.gameId }) fun _ _ => True := by
  rw [archive_eq]
  have files := (archiveRecord_archiving codecs record puuids clock state).mono
    (fun _ _ archiving => archiving) fun _ _ _ => trivial
  refine files.bind fun _ between archiving => ?_
  unfold markSeen setRam
  exact Meets.modify ⟨between, archiving, rfl⟩

/-- A call's transaction, the archive, and a mark. -/
theorem storeMatch_meets (given : Match) (clock : Clock) (state : State) :
    Meets (storeMatch codecs given.record given.puuids given.tsMs given.growthPaused clock) state
      (fun _ after => ∃ between, Archiving (given.committed state) between ∧
        after = { between with
          ram := between.ram.mark .storeMatch given.record.platform given.record.gameId })
      fun _ _ => True := by
  exact storeMatch_of_archive (fun _ _ _ => trivial) (archive_meets codecs _ given.puuids clock _)

/-- What a call leaves: its transaction, the archive, and a mark. -/
theorem storeMatch_leaves {given : Match} {clock : Clock} {state next : State}
    {adopted : List (Nat × String)}
    (ends : Ends (storeMatch codecs given.record given.puuids given.tsMs given.growthPaused clock)
      state adopted next) :
    ∃ between, Archiving (given.committed state) between ∧
      next = { between with
        ram := between.ram.mark .storeMatch given.record.platform given.record.gameId } :=
  ends.meets (storeMatch_meets codecs given clock state)

/-- The marks that a call leaves. -/
theorem isSeen_of_leaves {given : Match} {state between : State} {platform : String}
    {gameId : UInt64} (archiving : Archiving (given.committed state) between) :
    (between.ram.mark .storeMatch given.record.platform given.record.gameId).isSeen platform
        gameId = true ↔
      state.ram.isSeen platform gameId = true ∨ (platform, gameId) = given.key := by
  obtain ⟨_, _, ram⟩ := archiving.ram
  have same : between.ram.seen = state.ram.seen := by
    rw [ram]
    exact (given.committed_apart state).seen
  rw [isSeen_mark, isSeen_congr same]
  rfl

/-- A call marks its game, and no other. -/
theorem storeMatch_isSeen {given : Match} {clock : Clock} {state next : State}
    {adopted : List (Nat × String)} {platform : String} {gameId : UInt64}
    (ends : Ends (storeMatch codecs given.record given.puuids given.tsMs given.growthPaused clock)
      state adopted next) :
    next.ram.isSeen platform gameId = true ↔
      state.ram.isSeen platform gameId = true ∨ (platform, gameId) = given.key := by
  obtain ⟨between, archiving, rfl⟩ := storeMatch_leaves codecs ends
  exact isSeen_of_leaves archiving

end LolCrawler.Store
