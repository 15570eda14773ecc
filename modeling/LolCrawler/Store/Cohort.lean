import LolCrawler.Foundation.Run
import LolCrawler.Store.Orders

/-! # The cohort and the outsiders

A player is in the cohort or counted as an outsider, and memory and tables say the
same (`Mirrors`). Outside the cohort, the count is the number of games stored with
the player: distinct ones, and no remakes (`sightings`). A game moves a player into the
cohort when it is new, no remake, growth is not paused, and the count is high enough.
-/

namespace LolCrawler.Store

open Foundation Segment Prog

/-! ## Memory and tables -/

/-- The memory holds what the tables hold, and no member of the cohort is counted. -/
structure Mirrors (ram : Ram) (tables : Tables) : Prop where
  members : ∀ pid, pid ∈ ram.cohort ↔ (tables.cohort.get pid).isSome
  counts : ram.outsiderSeen = tables.outsider
  apart : ∀ pid, (tables.cohort.get pid).isSome → tables.outsider.get pid = none

/-- This sighting adopts the player. -/
def Ram.adopts (ram : Ram) (growthPaused : Bool) (pid : Nat) : Bool :=
  decide (pid ∉ ram.cohort) && !growthPaused &&
    decide (adoptionThreshold ≤ (ram.outsiderSeen.get pid).getD 0 + 1)

section Sight

variable {tsMs : Nat} {growthPaused : Bool} {found : Ram × Tables} {pid : Nat}

/-- A sighting changes the memory and the tables alike. -/
theorem sight_mirrors (mirrors : Mirrors found.1 found.2) :
    Mirrors (sight tsMs growthPaused found pid).1 (sight tsMs growthPaused found pid).2 := by
  unfold sight
  split
  · exact mirrors
  · next outside =>
      simp only
      split
      · refine ⟨fun other => ?_, ?_, fun other member => ?_⟩
        · rw [Finset.mem_insert, Table.get_insert, mirrors.members]
          split
          · next same => simp [same]
          · next different => simp [different]
        · simp only [mirrors.counts]
        · rw [Table.get_remove]
          split
          · rfl
          · next different =>
              rw [Table.get_insert_of_ne _ _ different] at member
              exact mirrors.apart other member
      · refine ⟨mirrors.members, ?_, fun other member => ?_⟩
        · simp only [mirrors.counts]
        · rw [Table.get_insert]
          split
          · next same =>
              subst same
              exact (outside ((mirrors.members other).mpr member)).elim
          · exact mirrors.apart other member

/-- What one sighting does to the player. -/
theorem sight_self (tsMs : Nat) (growthPaused : Bool) (found : Ram × Tables) (pid : Nat) :
    (pid ∈ (sight tsMs growthPaused found pid).1.cohort ↔
        pid ∈ found.1.cohort ∨ found.1.adopts growthPaused pid = true) ∧
      (pid ∉ (sight tsMs growthPaused found pid).1.cohort →
        ((sight tsMs growthPaused found pid).1.outsiderSeen.get pid).getD 0 =
          (found.1.outsiderSeen.get pid).getD 0 + 1) := by
  unfold sight Ram.adopts
  split
  · next member => simp [member]
  · next outside =>
      simp only
      split
      · next adopts =>
          simp only [Bool.and_eq_true, Bool.not_eq_true', decide_eq_true_eq] at adopts
          simp [outside, adopts.1, adopts.2]
      · next stays =>
          simp only [Bool.and_eq_true, Bool.not_eq_true', decide_eq_true_eq, not_and] at stays
          refine ⟨?_, fun _ => by simp⟩
          simp only [outside, not_false_eq_true, decide_true, Bool.true_and, Bool.and_eq_true,
            Bool.not_eq_true', decide_eq_true_eq, false_or, false_iff, not_and]
          exact stays

/-- Whether a player is adopted depends on the cohort and the count alone. -/
theorem adopts_congr {ram ram' : Ram} (member : pid ∈ ram'.cohort ↔ pid ∈ ram.cohort)
    (count : ram'.outsiderSeen.get pid = ram.outsiderSeen.get pid) (growthPaused : Bool) :
    ram'.adopts growthPaused pid = ram.adopts growthPaused pid := by
  simp only [Ram.adopts, member, count]

end Sight

/-- The memory and the tables after these sightings. -/
def sightAll (tsMs : Nat) (growthPaused : Bool) (pids : List Nat) (found : Ram × Tables) :
    Ram × Tables :=
  pids.foldl (sight tsMs growthPaused) found

section SightAll

variable (tsMs : Nat) (growthPaused : Bool) {pids : List Nat} (found : Ram × Tables)

/-- Sightings leave alone what progress is about. -/
theorem sightAll_alike (pids : List Nat) :
    Alike found.1 found.2 (sightAll tsMs growthPaused pids found).1
      (sightAll tsMs growthPaused pids found).2 :=
  sightings_alike tsMs growthPaused pids found

/-- Sightings change the memory and the tables alike. -/
theorem sightAll_mirrors (pids : List Nat) (mirrors : Mirrors found.1 found.2) :
    Mirrors (sightAll tsMs growthPaused pids found).1 (sightAll tsMs growthPaused pids found).2 :=
  List.foldlRecOn pids _ (motive := fun found : Ram × Tables => Mirrors found.1 found.2) mirrors
    fun _ held _ _ => sight_mirrors held

/-- Others are not affected. -/
theorem sightAll_apart {other : Nat} (outside : other ∉ pids) :
    (other ∈ (sightAll tsMs growthPaused pids found).1.cohort ↔ other ∈ found.1.cohort) ∧
      (sightAll tsMs growthPaused pids found).1.outsiderSeen.get other =
        found.1.outsiderSeen.get other := by
  induction pids generalizing found with
  | nil => exact ⟨Iff.rfl, rfl⟩
  | cons pid pids ih =>
      rw [List.mem_cons, not_or] at outside
      have here := sight_apart tsMs growthPaused found outside.1
      have there := ih (sight tsMs growthPaused found pid) outside.2
      exact ⟨there.1.trans here.1, there.2.trans here.2⟩

/-- Each player is sighted once. -/
theorem sightAll_self (distinct : pids.Nodup) {pid : Nat} (inside : pid ∈ pids) :
    (pid ∈ (sightAll tsMs growthPaused pids found).1.cohort ↔
        pid ∈ found.1.cohort ∨ found.1.adopts growthPaused pid = true) ∧
      (pid ∉ (sightAll tsMs growthPaused pids found).1.cohort →
        ((sightAll tsMs growthPaused pids found).1.outsiderSeen.get pid).getD 0 =
          (found.1.outsiderSeen.get pid).getD 0 + 1) := by
  induction pids generalizing found with
  | nil => cases inside
  | cons first pids ih =>
      rw [List.nodup_cons] at distinct
      rcases List.mem_cons.mp inside with rfl | later
      · obtain ⟨members, counts⟩ := sightAll_apart tsMs growthPaused
          (sight tsMs growthPaused found pid) distinct.1
        obtain ⟨adopted, counted⟩ := sight_self tsMs growthPaused found pid
        refine ⟨members.trans adopted, fun outside => ?_⟩
        have before := counted (mt members.mpr outside)
        rw [← before, ← counts]
        rfl
      · have different : pid ≠ first := fun same => distinct.1 (same ▸ later)
        obtain ⟨member, count⟩ := sight_apart tsMs growthPaused found different
        obtain ⟨adopted, counted⟩ := ih (sight tsMs growthPaused found first) distinct.2 later
        rw [adopts_congr member count growthPaused, member] at adopted
        rw [count] at counted
        exact ⟨adopted, counted⟩

/-- The players a game adopts. -/
def adoptedBy (tsMs : Nat) (growthPaused : Bool) : List (Nat × String) → Ram × Tables →
    List (Nat × String)
  | [], _ => []
  | (pid, puuid) :: players, found =>
      (if found.1.adopts growthPaused pid then [(pid, puuid)] else []) ++
        adoptedBy tsMs growthPaused players (sight tsMs growthPaused found pid)

/-- The adopted are the players of the match that are due for it. -/
theorem mem_adoptedBy {players : List (Nat × String)} (distinct : (players.map Prod.fst).Nodup)
    {pid : Nat} {puuid : String} :
    (pid, puuid) ∈ adoptedBy tsMs growthPaused players found ↔
      (pid, puuid) ∈ players ∧ found.1.adopts growthPaused pid = true := by
  induction players generalizing found with
  | nil => simp [adoptedBy]
  | cons player players ih =>
      obtain ⟨first, name⟩ := player
      rw [List.map_cons, List.nodup_cons] at distinct
      rw [adoptedBy, List.mem_append, ih _ distinct.2, List.mem_cons]
      have later : (pid, puuid) ∈ players →
          (sight tsMs growthPaused found first).1.adopts growthPaused pid =
            found.1.adopts growthPaused pid := by
        intro inside
        have different : pid ≠ first := by
          rintro rfl
          exact distinct.1 (List.mem_map.mpr ⟨_, inside, rfl⟩)
        obtain ⟨member, count⟩ := sight_apart tsMs growthPaused found different
        exact adopts_congr member count growthPaused
      constructor
      · rintro (here | ⟨inside, adopts⟩)
        · split at here
          · next adopts =>
              rw [List.mem_singleton] at here
              cases here
              exact ⟨.inl rfl, adopts⟩
          · cases here
        · exact ⟨.inr inside, later inside ▸ adopts⟩
      · rintro ⟨same | inside, adopts⟩
        · cases same
          left
          rw [if_pos adopts]
          exact List.mem_singleton_self _
        · exact .inr ⟨inside, (later inside).symm ▸ adopts⟩

/-- One sighting, and whom it adopts. -/
theorem countOutsider_ends (pid : Nat) (puuid : String) (state : State) :
    Ends (countOutsider tsMs growthPaused pid puuid) state
      (if state.ram.adopts growthPaused pid then [(pid, puuid)] else [])
      (state.withSightings tsMs growthPaused [pid]) := by
  obtain ⟨value, after, ends⟩ :=
    (paced_steps.countOutsider memory_any tsMs growthPaused pid puuid).total state
  have same : after = state.withSightings tsMs growthPaused [pid] :=
    (countOutsider_meets tsMs growthPaused pid puuid state).ok ends
  subst same
  suffices here : value = if state.ram.adopts growthPaused pid then [(pid, puuid)] else [] by
    rw [← here]
    exact ends
  have adopted : (countOutsider tsMs growthPaused pid puuid ⟨state, .never⟩).1 =
      .ok (if state.ram.adopts growthPaused pid then [(pid, puuid)] else []) := by
    show ((if pid ∈ state.ram.cohort then pure [] else _ : Act (List (Nat × String)))
      ⟨state, .never⟩).1 = _
    by_cases member : pid ∈ state.ram.cohort
    · rw [if_pos member]
      simp [Ram.adopts, member, pure]
    · rw [if_neg member]
      simp only [Ram.adopts, member, not_false_eq_true, decide_true, Bool.true_and]
      split
      · rfl
      · rfl
  rw [ends] at adopted
  exact Except.ok.inj adopted

/-- The outsiders are counted, and those that are due are adopted. -/
theorem countOutsiders_ends (players : List (Nat × String)) (state : State) :
    Ends (countOutsiders tsMs growthPaused players) state
      (adoptedBy tsMs growthPaused players (state.ram, state.working))
      (state.withSightings tsMs growthPaused (players.map Prod.fst)) := by
  induction players generalizing state with
  | nil => exact rfl
  | cons player players ih =>
      obtain ⟨pid, puuid⟩ := player
      exact (countOutsider_ends tsMs growthPaused pid puuid state).bind ((ih _).bind rfl)

end SightAll

/-! ## One call of `store_match` -/

namespace Match

/-- The players that a call adopts. -/
def adopted (given : Match) (state : State) : List (Nat × String) :=
  if given.real && (state.tables.progress.get given.key).isNone then
    adoptedBy given.tsMs given.growthPaused ((given.pids state.ram).zip given.puuids)
      ((given.entered state).ram, (given.entered state).working)
  else []

/-- The effects of a match end, and return the adopted. -/
theorem effects_ends (given : Match) (state : State) :
    Ends (matchEffects given.record given.puuids given.tsMs given.growthPaused
        (state.tables.progress.get given.key).isSome (given.pids state.ram)) (given.entered state)
      (given.adopted state) (given.inTxn state) := by
  have length : (given.pids state.ram).length = given.puuids.length :=
    length_assign state.ram given.puuids
  unfold inTxn effects adopted matchEffects
  cases found : state.tables.progress.get given.key with
  | some progress =>
      simp only [Option.isSome_some, Bool.not_true, Bool.and_false, Bool.false_eq_true, ↓reduceIte,
        Option.isNone_some]
      exact rfl
  | none =>
      cases kind : isRemake given.record with
      | true =>
          simp only [real, kind, Option.isSome_none, Bool.not_false, Bool.and_self, ↓reduceIte,
            Bool.not_true, Option.isNone_none, Bool.false_and, Bool.false_eq_true]
          exact rfl
      | false =>
          simp only [real, kind, Option.isSome_none, Bool.not_false, Bool.false_and,
            Bool.false_eq_true, ↓reduceIte, Option.isNone_none, Bool.and_self]
          have sighted := countOutsiders_ends given.tsMs given.growthPaused
            ((given.pids state.ram).zip given.puuids) (given.entered state)
          rw [List.map_fst_zip (Nat.le_of_eq length)] at sighted
          have paced := paced_steps.trackProgress memory_any given.record.platform
            given.record.gameId given.tsMs (given.pids state.ram)
          obtain ⟨_, after, ends⟩ := paced.total
            (given.sighted (given.pids state.ram) (given.entered state))
          have tracked := (trackProgress_meets _ _ _ _ _).ok ends
          subst tracked
          exact Ends.bind rfl (Ends.bind rfl (sighted.bind (Ends.bind ends rfl)))

/-- The transaction of a match ends, and returns the record and the adopted. -/
theorem txn_ends (given : Match) (state : State) :
    Ends (matchTxn given.record given.puuids given.tsMs given.growthPaused) state
      (given.filled state.ram, given.adopted state) (given.committed state) := by
  obtain ⟨ids, after, ends⟩ := (paced_steps.matchPlayerIds memory_any given.puuids).total
    { state with working := state.tables }
  obtain ⟨same, entered⟩ := (matchPlayerIds_meets given.puuids _).ok ends
  subst same
  have entered' : after = given.entered state := entered
  subst entered'
  exact Ends.bind rfl (Ends.bind rfl (Ends.bind rfl (Ends.bind rfl (Ends.bind rfl
    (Ends.bind ends ((given.effects_ends state).bind (Ends.bind rfl rfl)))))))

end Match

variable (codecs : Codecs)

/-- What a call returns, and what it leaves. -/
theorem storeMatch_ends {given : Match} {clock : Clock} {state next : State}
    {adopted : List (Nat × String)}
    (ends : Ends (storeMatch codecs given.record given.puuids given.tsMs given.growthPaused clock)
      state adopted next) :
    adopted = given.adopted state ∧ Aside (given.committed state) next := by
  have rest : LeavesAside (do
      archive codecs (given.filled state.ram) given.puuids clock
      pure (given.adopted state)) := Leaves.bind (archive_aside codecs _ _ _) fun _ => .pure _
  have split : storeMatch codecs given.record given.puuids given.tsMs given.growthPaused clock
      ⟨state, .never⟩ = (do
        archive codecs (given.filled state.ram) given.puuids clock
        pure (given.adopted state)) ⟨given.committed state, .never⟩ := by
    unfold storeMatch
    rw [bind_of_ok (given.txn_ends state)]
  have aside := Leaves.state rest (given.committed state) .never
  unfold Ends at ends
  rw [split] at ends
  rw [ends] at aside
  refine ⟨?_, aside⟩
  rcases run : archive codecs (given.filled state.ram) given.puuids clock
    ⟨given.committed state, .never⟩ with ⟨halt | value, between⟩
  · rw [bind_of_error run] at ends
    cases ends
  · rw [bind_of_ok run] at ends
    cases ends
    rfl

/-! ## The games a player was seen in -/

/-- A game of this player that is no remake. -/
def Match.shows (puuid : String) (given : Match) : Bool :=
  given.real && given.puuids.contains puuid

/-- The number of a player's games: distinct ones, and no remakes. -/
def sightings (calls : List Match) (puuid : String) : Nat := distinctGames calls (Match.shows puuid)

/-- A match shows its players unless it is a remake. -/
theorem Match.shows_iff {puuid : String} {given : Match} :
    given.shows puuid = true ↔ given.real = true ∧ puuid ∈ given.puuids := by
  simp [Match.shows]

/-- A player of no match was never seen. -/
theorem sightings_eq_zero {calls : List Match} {puuid : String}
    (absent : ∀ given ∈ calls, puuid ∉ given.puuids) : sightings calls puuid = 0 := by
  unfold sightings distinctGames
  rw [List.length_eq_zero_iff, List.dedup_eq_nil, List.map_eq_nil_iff, List.filter_eq_nil_iff]
  intro given inside shows
  exact absent given inside (Match.shows_iff.mp shows).2

/-- A match id always comes with the same players and duration. -/
structure SameGames (calls : List Match) : Prop where
  distinct : ∀ given ∈ calls, given.puuids.Nodup
  same : ∀ first ∈ calls, ∀ second ∈ calls, first.key = second.key →
    first.puuids = second.puuids ∧ first.record.durationS = second.record.durationS

/-- The games of the first calls are the same games. -/
theorem SameGames.of_left {calls rest : List Match}
    (same : SameGames (calls ++ rest)) : SameGames calls where
  distinct game inside := same.distinct game (List.mem_append_left _ inside)
  same first one second two :=
    same.same first (List.mem_append_left _ one) second (List.mem_append_left _ two)

/-! ## The accounts -/

/-- Players, cohort and outsiders after these calls. -/
structure Accounts (calls : List Match) (ram : Ram) (tables : Tables) : Prop where
  players : ram.players = tables.players
  issued : Issued tables.players ram.nextPlayerId
  known : ∀ given ∈ calls, ∀ puuid ∈ given.puuids, ∃ pid, tables.players.get puuid = some pid
  stored : ∀ key, (tables.progress.get key).isSome ↔ ∃ given ∈ calls, given.key = key
  mirrors : Mirrors ram tables
  seen : ∀ puuid pid, tables.players.get puuid = some pid → pid ∉ ram.cohort →
    (ram.outsiderSeen.get pid).getD 0 = sightings calls puuid
  someone : ∀ pid, (ram.outsiderSeen.get pid).isSome → ∃ puuid, tables.players.get puuid = some pid

namespace Accounts

variable {calls : List Match} {ram : Ram} {tables : Tables} {given : Match}

/-- The accounts are about the players, the cohort and the counts alone. -/
theorem congr {ram' : Ram} {tables' : Tables} (accounts : Accounts calls ram tables)
    (players : ram'.players = ram.players) (next : ram'.nextPlayerId = ram.nextPlayerId)
    (cohort : ram'.cohort = ram.cohort) (seen : ram'.outsiderSeen = ram.outsiderSeen)
    (rows : tables'.players = tables.players) (members : tables'.cohort = tables.cohort)
    (outsiders : tables'.outsider = tables.outsider)
    (progress : ∀ key, (tables'.progress.get key).isSome = (tables.progress.get key).isSome) :
    Accounts calls ram' tables' where
  players := by rw [players, rows, accounts.players]
  issued := by
    rw [rows, next]
    exact accounts.issued
  known := by
    rw [rows]
    exact accounts.known
  stored := by
    intro key
    rw [progress]
    exact accounts.stored key
  mirrors := by
    obtain ⟨member, counts, apart⟩ := accounts.mirrors
    refine ⟨?_, ?_, ?_⟩
    · rw [cohort, members]
      exact member
    · rw [seen, outsiders]
      exact counts
    · rw [members, outsiders]
      exact apart
  seen := by
    rw [rows, cohort, seen]
    exact accounts.seen
  someone := by
    rw [rows, seen]
    exact accounts.someone

/-- New players have not been seen. -/
theorem withPlayers (accounts : Accounts calls ram tables) (puuids : List String) :
    Accounts calls (ram.assign puuids).1
      { tables with players := addPlayers tables.players (ram.assign puuids).2.2 } := by
  have rows : addPlayers tables.players (ram.assign puuids).2.2 =
    (ram.assign puuids).1.players := by
    rw [players_assign, accounts.players]
  have keeps : ∀ {puuid pid}, tables.players.get puuid = some pid →
      (ram.assign puuids).1.players.get puuid = some pid := by
    intro puuid pid here
    rw [← accounts.players] at here
    exact keeps_assign ram puuids _ _ here
  have issued : Issued (ram.assign puuids).1.players (ram.assign puuids).1.nextPlayerId := by
    apply Issued.assign
    rw [accounts.players]
    exact accounts.issued
  have cohort : (ram.assign puuids).1.cohort = ram.cohort := by rw [assign_rest]
  have counts : (ram.assign puuids).1.outsiderSeen = ram.outsiderSeen := by rw [assign_rest]
  rw [rows]
  refine ⟨rfl, issued, fun given inside puuid plays => ?_, accounts.stored, ?_,
    fun puuid pid here outside => ?_, fun pid counted => ?_⟩
  · obtain ⟨pid, here⟩ := accounts.known given inside puuid plays
    exact ⟨pid, keeps here⟩
  · obtain ⟨member, same, apart⟩ := accounts.mirrors
    refine ⟨?_, ?_, apart⟩
    · rw [cohort]
      exact member
    · rw [counts]
      exact same
  · rw [cohort] at outside
    rw [counts]
    cases old : tables.players.get puuid with
    | some pid' =>
        rw [keeps old, Option.some.injEq] at here
        exact accounts.seen puuid pid (here ▸ old) outside
    | none =>
        have unseen : sightings calls puuid = 0 := by
          apply sightings_eq_zero
          intro given inside plays
          obtain ⟨pid', there⟩ := accounts.known given inside puuid plays
          rw [old] at there
          cases there
        have uncounted : ram.outsiderSeen.get pid = none := by
          rw [← Option.not_isSome_iff_eq_none]
          intro counted
          obtain ⟨other, there⟩ := accounts.someone pid counted
          rw [issued.injective (keeps there) here, old] at there
          cases there
        rw [unseen, uncounted]
        rfl
  · rw [counts] at counted
    obtain ⟨puuid, here⟩ := accounts.someone pid counted
    exact ⟨puuid, keeps here⟩

/-- The keys of one more match. -/
theorem exists_key_append {key : String × UInt64} :
    (∃ game ∈ calls ++ [given], game.key = key) ↔
      (∃ game ∈ calls, game.key = key) ∨ given.key = key := by
  simp only [List.mem_append, List.mem_singleton, or_and_right, exists_or, exists_eq_left]

/-- A match that is stored again. -/
theorem again (accounts : Accounts calls ram tables) (games : SameGames (calls ++ [given]))
    {game : Match} (there : game ∈ calls) (same : game.key = given.key) :
    Accounts (calls ++ [given]) ram tables := by
  obtain ⟨players, duration⟩ := games.same game (by simp [there]) given (by simp) same
  refine ⟨accounts.players, accounts.issued, fun other inside puuid plays => ?_, fun key => ?_,
    accounts.mirrors, fun puuid pid here outside => ?_, accounts.someone⟩
  · rcases List.mem_append.mp inside with inside | inside
    · exact accounts.known other inside puuid plays
    · rw [List.mem_singleton] at inside
      subst inside
      exact accounts.known game there puuid (players ▸ plays)
  · rw [accounts.stored, exists_key_append, or_iff_left_of_imp]
    intro here
    exact ⟨game, there, same.trans here⟩
  · rw [accounts.seen puuid pid here outside]
    symm
    apply distinctGames_append_again there same
    rw [Match.shows, Match.shows, Match.real, Match.real, isRemake, isRemake, players, duration]

/-- One more match has a record. -/
theorem stored_insert (accounts : Accounts calls ram tables) (given : Match) (progress : List Nat)
    (key : String × UInt64) :
    ((tables.progress.insert given.key progress).get key).isSome ↔
      ∃ game ∈ calls ++ [given], game.key = key := by
  rw [Table.get_insert]
  by_cases same : key = given.key
  · simp only [same, ↓reduceIte, Option.isSome_some, true_iff]
    exact ⟨given, by simp, rfl⟩
  · rw [if_neg same, accounts.stored, exists_key_append, or_iff_left (Ne.symm same)]

/-- A new match that leaves cohort and counts alone: a remake. -/
theorem marker (accounts : Accounts calls ram tables) (new : ∀ game ∈ calls, game.key ≠ given.key)
    (remake : given.real = false)
    (known : ∀ puuid ∈ given.puuids, ∃ pid, tables.players.get puuid = some pid) :
    Accounts (calls ++ [given]) ram
      { tables with progress := tables.progress.insert given.key [] } := by
  refine ⟨accounts.players, accounts.issued, fun other inside puuid plays => ?_,
    accounts.stored_insert given [],
    ⟨accounts.mirrors.members, accounts.mirrors.counts, accounts.mirrors.apart⟩,
    fun puuid pid here outside => ?_, accounts.someone⟩
  · rcases List.mem_append.mp inside with inside | inside
    · exact accounts.known other inside puuid plays
    · rw [List.mem_singleton] at inside
      exact known puuid (inside ▸ plays)
  · rw [accounts.seen puuid pid here outside, sightings, sightings, distinctGames_append_new new,
      Match.shows, remake]
    rfl

end Accounts

/-! ## A new game -/

/-- Credit goes to games that have a record. -/
theorem credit_keys (platform : String) (later : List TlEntry)
    (found : Table (String × UInt64) (List Nat) × Nat) (key : String × UInt64) :
    ((credit platform later found).1.get key).isSome = (found.1.get key).isSome := by
  induction later generalizing found with
  | nil => rfl
  | cons entry later ih =>
      obtain ⟨time, gameId, slot⟩ := entry
      cases counted : slots found.1 platform gameId with
      | none => rw [credit_skip counted, ih]
      | some progress =>
          cases bumped : bumpSlot progress slot with
          | none => rw [credit_full counted bumped]
          | some result =>
              rw [credit_bump counted bumped, ih, Table.get_insert]
              split
              · next same =>
                  have here : found.1.get (platform, gameId) = some progress :=
                    (Option.filter_eq_some_iff.mp counted).1
                  rw [same, here]
                  rfl
              · rfl

/-- A match is marked as tracked, and no other. -/
theorem tracked_keys (tables : Tables) (platform : String) (gameId : UInt64) (tsMs : Nat)
    (pids : List Nat) (key : String × UInt64) :
    ((tables.tracked platform gameId tsMs pids).1.progress.get key).isSome =
      (decide (key = (platform, gameId)) || (tables.progress.get key).isSome) := by
  have all : ∀ (later : Nat → List TlEntry) (pids : List Nat)
      (found : Table (String × UInt64) (List Nat) × Nat),
      ((creditAll platform later pids found).1.get key).isSome = (found.1.get key).isSome := by
    intro later pids found
    induction pids generalizing found with
    | nil => rfl
    | cons pid pids ih =>
        have rest := ih (credit platform (later pid) found)
        rw [credit_keys] at rest
        exact rest
  rw [Tables.tracked, all, Table.get_insert]
  split
  · next same => simp [same]
  · next different => simp [different]

namespace Accounts

variable {calls : List Match} {given : Match}

/-- Every player of a new game is sighted once. -/
theorem sighted {ram : Ram} {tables : Tables} {pids : List Nat}
    (accounts : Accounts calls ram tables) (games : SameGames (calls ++ [given]))
    (real : given.real = true) (new : ∀ game ∈ calls, game.key ≠ given.key)
    (numbered : Numbered given tables.players pids) :
    Accounts (calls ++ [given])
      (sightAll given.tsMs given.growthPaused pids (ram, tables)).1
      { (sightAll given.tsMs given.growthPaused pids (ram, tables)).2 with
        progress := tables.progress.insert given.key [] } := by
  have distinct : pids.Nodup :=
    numbered.nodup accounts.issued (games.distinct given (by simp))
  have alike := sightAll_alike given.tsMs given.growthPaused (ram, tables) pids
  have mirrors := sightAll_mirrors given.tsMs given.growthPaused (ram, tables) pids accounts.mirrors
  have someone : ∀ pid ∈ pids, ∃ puuid ∈ given.puuids, tables.players.get puuid = some pid := by
    intro pid inside
    obtain ⟨slot, takes⟩ := List.mem_iff_getElem?.mp inside
    obtain ⟨puuid, there, known⟩ := numbered.plays_iff.mpr takes
    exact ⟨puuid, List.mem_of_getElem? there, known⟩
  have rows : ({ (sightAll given.tsMs given.growthPaused pids (ram, tables)).2 with
      progress := tables.progress.insert given.key [] } : Tables).players = tables.players :=
    alike.rows
  refine ⟨alike.players.trans (accounts.players.trans rows.symm), ?_,
    fun other inside puuid plays => ?_, accounts.stored_insert given [],
    ⟨mirrors.members, mirrors.counts, mirrors.apart⟩, fun puuid pid here outside => ?_,
    fun pid counted => ?_⟩
  · rw [rows, alike.next]
    exact accounts.issued
  · rw [rows]
    rcases List.mem_append.mp inside with inside | inside
    · exact accounts.known other inside puuid plays
    · rw [List.mem_singleton] at inside
      exact numbered.known (inside ▸ plays)
  · rw [rows] at here
    rw [sightings, distinctGames_append_new new]
    by_cases inside : pid ∈ pids
    · obtain ⟨adopted, counted⟩ := sightAll_self given.tsMs given.growthPaused (ram, tables)
        distinct inside
      have before : pid ∉ ram.cohort := fun member => outside (adopted.mpr (.inl member))
      obtain ⟨other, plays, there⟩ := someone pid inside
      have shows : given.shows puuid = true :=
        Match.shows_iff.mpr ⟨real, accounts.issued.injective here there ▸ plays⟩
      rw [counted outside, accounts.seen puuid pid here before, shows]
      rfl
    · obtain ⟨member, count⟩ := sightAll_apart given.tsMs given.growthPaused (ram, tables) inside
      have hidden : given.shows puuid = false := by
        rw [Bool.eq_false_iff]
        intro shows
        obtain ⟨slot, takes⟩ := List.mem_iff_getElem?.mp (Match.shows_iff.mp shows).2
        exact inside (List.mem_of_getElem? ((numbered.get takes).trans here))
      rw [count, accounts.seen puuid pid here (mt member.mpr outside), hidden]
      rfl
  · rw [rows]
    by_cases inside : pid ∈ pids
    · obtain ⟨puuid, _, known⟩ := someone pid inside
      exact ⟨puuid, known⟩
    · rw [(sightAll_apart given.tsMs given.growthPaused (ram, tables) inside).2] at counted
      exact accounts.someone pid counted

end Accounts

/-- The progress of a match leaves the cohort alone. -/
theorem withMatch_rest (state : State) (platform : String) (gameId : UInt64) (tsMs : Nat)
    (pids : List Nat) :
    (state.withMatch platform gameId tsMs pids).ram.cohort = state.ram.cohort ∧
      (state.withMatch platform gameId tsMs pids).ram.outsiderSeen = state.ram.outsiderSeen ∧
      (state.withMatch platform gameId tsMs pids).working.cohort = state.working.cohort ∧
      (state.withMatch platform gameId tsMs pids).working.outsider = state.working.outsider := by
  unfold State.withMatch State.withValid
  split
  · exact ⟨rfl, rfl, rfl, rfl⟩
  · exact ⟨rfl, rfl, rfl, rfl⟩

/-- **The transaction of one call** keeps the accounts, with that call counted. -/
theorem Accounts.committed {calls : List Match} {given : Match} {state : State}
    (accounts : Accounts calls state.ram state.tables) (games : SameGames (calls ++ [given])) :
    Accounts (calls ++ [given]) (given.committed state).ram (given.committed state).tables := by
  have entered : Accounts calls (given.entered state).ram (given.entered state).working :=
    accounts.withPlayers given.puuids
  have numbered : Numbered given (given.entered state).working.players (given.pids state.ram) :=
    numbered_pids accounts.players
  show Accounts (calls ++ [given]) (given.inTxn state).ram (given.inTxn state).working
  cases found : state.tables.progress.get given.key with
  | some progress =>
      obtain ⟨game, inside, same⟩ := (accounts.stored given.key).mp (by rw [found]; rfl)
      have unchanged : given.inTxn state = given.entered state := by
        rw [Match.inTxn, Match.effects, found]
        simp
      rw [unchanged]
      exact entered.again games inside same
  | none =>
      have new : ∀ game ∈ calls, game.key ≠ given.key := by
        intro game inside same
        have there := (accounts.stored given.key).mpr ⟨game, inside, same⟩
        rw [found] at there
        cases there
      cases kind : given.real with
      | false =>
          have remake : isRemake given.record = true := by simpa [Match.real] using kind
          have marked : given.inTxn state =
              { given.entered state with
                working :=
                  { (given.entered state).working with
                    progress := (given.entered state).working.progress.insert given.key [] } } := by
            rw [Match.inTxn, Match.effects, found, remake]
            rfl
          rw [marked]
          exact entered.marker new kind fun _ inside => numbered.known inside
      | true =>
          rw [inTxn_new kind found]
          obtain ⟨cohort, seen, members, outsiders⟩ := withMatch_rest
            (given.sighted (given.pids state.ram) (given.entered state)) given.record.platform
            given.record.gameId given.tsMs (given.pids state.ram)
          obtain ⟨players, next, rows, -, progress⟩ := withValid_alike
            { given.sighted (given.pids state.ram) (given.entered state) with
              working := ((given.sighted (given.pids state.ram)
                (given.entered state)).working.tracked
                given.record.platform given.record.gameId given.tsMs (given.pids state.ram)).1 }
            given.record.platform
            ((given.sighted (given.pids state.ram) (given.entered state)).working.tracked
              given.record.platform given.record.gameId given.tsMs (given.pids state.ram)).2
          have sighted := entered.sighted games kind new numbered
          refine sighted.congr players next cohort seen rows members outsiders fun key => ?_
          show ((State.withValid _ _ _).working.progress.get key).isSome = _
          rw [progress, tracked_keys, show (given.sighted (given.pids state.ram)
            (given.entered state)).working.progress = _ from before_progress given state,
            Table.get_insert]
          split
          · next same => simp [same, Match.key]
          · next different =>
              have apart : key ≠ (given.record.platform, given.record.gameId) := different
              simp only [apart, decide_false, Bool.false_or]
              rfl

/-! ## The other calls -/

section Calls

variable {calls : List Match}

/-- The new players are written in the open transaction. -/
theorem insertPlayers_meets (new : List (String × Nat)) {before : State} {state : State}
    (outside : Outside before state) :
    Meets (insertPlayers new) state
      (fun _ after => after =
        { state with
          working := { state.working with players := addPlayers state.working.players new } })
      fun _ after => Outside before after := by
  induction new generalizing state with
  | nil => exact Meets.pure rfl
  | cons entry new ih =>
      unfold insertPlayers insertPlayer change
      refine Meets.step_bind outside outside ?_
      exact ih ⟨outside.tables, outside.durable, outside.segments, outside.stored⟩

/-- The tables with the rows of a call's new players. -/
def State.assignedTables (state : State) (puuids : List String) : Tables :=
  { state.tables with
    players := addPlayers state.tables.players (state.ram.assign puuids).2.2 }

/-- The state after players were assigned their ids. -/
def State.assigned (state : State) (puuids : List String) : State :=
  { state with
    working := if (state.ram.assign puuids).2.2.isEmpty then state.working
      else state.assignedTables puuids
    ram := (state.ram.assign puuids).1
    tables := state.assignedTables puuids }

/-- **An assignment** gives each player an id; cut short, it changes nothing outside. -/
theorem assignPlayerIds_meets (puuids : List String) (before : State) :
    Meets (assignPlayerIds puuids) before
      (fun ids after => ids = (before.ram.assign puuids).2.1 ∧ after = before.assigned puuids)
      fun _ after => Outside before after := by
  unfold assignPlayerIds State.assigned
  refine Meets.gets_bind (Meets.modify_bind ?_)
  by_cases none : (before.ram.assign puuids).2.2.isEmpty
  · simp only [if_pos none]
    refine Meets.pure ⟨rfl, ?_⟩
    rw [State.assignedTables, List.isEmpty_iff.mp none]
    rfl
  · simp only [if_neg none]
    refine Meets.step_bind ⟨rfl, rfl, rfl, rfl⟩ ⟨rfl, rfl, rfl, rfl⟩
      (Meets.step_bind ⟨rfl, rfl, rfl, rfl⟩ ⟨rfl, rfl, rfl, rfl⟩ ?_)
    refine Meets.bind (insertPlayers_meets _ ⟨rfl, rfl, rfl, rfl⟩) fun _ between here => ?_
    rw [here]
    exact Meets.step_bind ⟨rfl, rfl, rfl, rfl⟩ ⟨rfl, rfl, rfl, rfl⟩ (Meets.pure ⟨rfl, rfl⟩)

/-- An assignment ends, and returns the ids in order. -/
theorem assignPlayerIds_ends (puuids : List String) (state : State) :
    Ends (assignPlayerIds puuids) state (state.ram.assign puuids).2.1 (state.assigned puuids) :=
  (paced_steps.assignPlayerIds (fun _ => trivial) puuids).ends (assignPlayerIds_meets puuids state)

/-- The rows of new members. -/
def enrolAll (nowMs source : Nat) (new : List Nat) (tables : Tables) : Tables :=
  new.foldl (fun tables pid =>
    { tables with
      cohort := tables.cohort.insert pid (nowMs, source)
      outsider := tables.outsider.remove pid }) tables

/-- The new members are written one by one. -/
theorem insertCohort_ends (nowMs source : Nat) (new : List Nat) (state : State) :
    Ends (insertCohort nowMs source new) state ()
      { state with working := enrolAll nowMs source new state.working } := by
  induction new generalizing state with
  | nil => exact rfl
  | cons pid new ih =>
      have first : ∀ after, Ends (insertCohort nowMs source new)
          { state with
            working :=
              { state.working with
                cohort := state.working.cohort.insert pid (nowMs, source)
                outsider := state.working.outsider.remove pid } } ()
            after → Ends (insertCohort nowMs source (pid :: new)) state () after :=
              fun _ here => here
      exact first _ (ih _)

/-- An enrolment ends, and returns those who were outside. -/
theorem cohortAddBatch_ends (players : List Nat) (source nowMs : Nat) (state : State) :
    ∃ working, Ends (cohortAddBatch players source nowMs) state
      (players.filter fun pid => pid ∉ state.ram.cohort)
      { state with
        working := working
        ram := (players.filter fun pid => pid ∉ state.ram.cohort).foldl Ram.enrol state.ram
        tables := enrolAll nowMs source (players.filter fun pid => pid ∉ state.ram.cohort)
          state.tables } := by
  unfold cohortAddBatch
  by_cases none : (players.filter fun pid => pid ∉ state.ram.cohort).isEmpty
  · refine ⟨state.working, Ends.bind rfl ?_⟩
    rw [if_pos none]
    simp only [List.isEmpty_iff.mp none]
    exact rfl
  · refine ⟨enrolAll nowMs source (players.filter fun pid => pid ∉ state.ram.cohort) state.tables,
      Ends.bind rfl ?_⟩
    rw [if_neg none]
    exact Ends.bind rfl (Ends.bind rfl (Ends.bind rfl ((insertCohort_ends _ _ _ _).bind
      (Ends.bind rfl (Ends.bind rfl rfl)))))

/-- Enrolment moves players into the cohort and out of the counts. -/
theorem Accounts.enrolled {ram : Ram} {tables : Tables} (accounts : Accounts calls ram tables)
    (nowMs source : Nat) (new : List Nat) :
    Accounts calls (new.foldl Ram.enrol ram) (enrolAll nowMs source new tables) := by
  induction new generalizing ram tables with
  | nil => exact accounts
  | cons pid new ih =>
      apply ih
      obtain ⟨members, counts, apart⟩ := accounts.mirrors
      refine ⟨accounts.players, accounts.issued, accounts.known, accounts.stored,
        ⟨fun other => ?_, ?_, fun other member => ?_⟩, fun puuid other here outside => ?_,
        fun other counted => accounts.someone other ?_⟩
      · rw [Ram.enrol, Finset.mem_insert, Table.get_insert, members]
        split
        · next same => simp [same]
        · next different => simp [different]
      · rw [Ram.enrol]
        simp only [counts]
      · rw [Table.get_remove]
        split
        · rfl
        · next different =>
            rw [Table.get_insert_of_ne _ _ different] at member
            exact apart other member
      · rw [Ram.enrol, Finset.mem_insert, not_or] at outside
        rw [Ram.enrol, Table.get_remove, if_neg outside.1]
        exact accounts.seen puuid other here outside.2
      · rw [Ram.enrol, Table.get_remove] at counted
        split at counted
        · cases counted
        · exact counted

/-- What is left aside is not in the accounts. -/
theorem Accounts.aside {before after : State} (accounts : Accounts calls before.ram before.tables)
    (aside : Aside before after) : Accounts calls after.ram after.tables := by
  obtain ⟨_, _, tables⟩ := aside.tables
  exact accounts.congr aside.players aside.next aside.members aside.sightings (by rw [tables])
    (by rw [tables]) (by rw [tables]) fun _ => by rw [tables]

/-- A commit touches none of it. -/
theorem Accounts.commit (codecs : Codecs) {state : State}
    (accounts : Accounts calls state.ram state.tables) (nowMs : Nat) (order : List String) :
    Accounts calls (commit codecs nowMs order ⟨state, .never⟩).2.state.ram
      (commit codecs nowMs order ⟨state, .never⟩).2.state.tables ∧
      (commit codecs nowMs order ⟨state, .never⟩).2.state.ram.players = state.ram.players := by
  have meets : Meets (Store.commit codecs nowMs order) state
      (fun _ after => Accounts calls after.ram after.tables ∧
        after.ram.players = state.ram.players)
      fun _ after => Accounts calls after.ram after.tables ∧
        after.ram.players = state.ram.players := by
    have files := LeavesAside.of_archiving (checkpointFlush_archiving codecs nowMs order)
    rw [commit_eq]
    refine Meets.bind ((files state).mono (fun _ after aside =>
      (⟨accounts.aside aside, aside.players⟩ : _ ∧ after.ram.players = state.ram.players))
      fun _ _ aside => ⟨accounts.aside aside, aside.players⟩) ?_
    rintro _ between ⟨here, players⟩
    refine (commitBitmaps_meets between).mono (fun _ after same => ?_) fun _ after stopped => ?_
    · rw [same]
      split
      · exact ⟨here.congr rfl rfl rfl rfl rfl rfl rfl fun _ => rfl, players⟩
      · exact ⟨here, players⟩
    · rw [stopped.2, stopped.1.tables]
      exact ⟨here, players⟩
  have run := meets .never
  rcases done : Store.commit codecs nowMs order ⟨state, .never⟩ with ⟨halt | value, after⟩
  · rw [done] at run
    exact run
  · rw [done] at run
    exact run

/-- An opened store has the durable tables, and its memory from them. -/
theorem openStore_ends (platforms : List String) (state : State) :
    Ends (openStore platforms) state ()
      { state with
        durable := state.tables
        working := state.tables
        ram := Ram.load platforms state.tables } := rfl

/-- The next id is above all that the tables hold. -/
theorem Issued.load {players : Table String Nat} {next : Nat} (issued : Issued players next) :
    Issued players (players.entries.foldl (fun next entry => max next (entry.2 + 1)) 1) := by
  refine ⟨issued.injective, fun {puuid id} here => ?_⟩
  have above : ∀ (entries : List (String × Nat)) (start : Nat),
      start ≤ entries.foldl (fun next entry => max next (entry.2 + 1)) start ∧
        ∀ entry ∈ entries, entry.2 < entries.foldl
        (fun next entry => max next (entry.2 + 1)) start := by
    intro entries
    induction entries with
    | nil => exact fun start => ⟨Nat.le_refl _, nofun⟩
    | cons entry entries ih =>
        intro start
        obtain ⟨below, inside⟩ := ih (max start (entry.2 + 1))
        rw [List.foldl_cons]
        refine ⟨by omega, fun other there => ?_⟩
        rcases List.mem_cons.mp there with rfl | there
        · omega
        · exact inside other there
  exact (above players.entries 1).2 _ (Table.get_eq_some.mp here)

/-- The cohort that is loaded is that of the table. -/
theorem mem_load_cohort (platforms : List String) (tables : Tables) (pid : Nat) :
    pid ∈ (Ram.load platforms tables).cohort ↔ (tables.cohort.get pid).isSome := by
  rw [Ram.load, List.mem_toFinset, List.mem_map, Option.isSome_iff_exists]
  constructor
  · rintro ⟨⟨_, value⟩, inside, rfl⟩
    exact ⟨value, Table.get_eq_some.mpr inside⟩
  · rintro ⟨value, here⟩
    exact ⟨(pid, value), Table.get_eq_some.mp here, rfl⟩

/-- An opened store remembers what the tables hold. -/
theorem Accounts.load {ram : Ram} {tables : Tables} (accounts : Accounts calls ram tables)
    (platforms : List String) : Accounts calls (Ram.load platforms tables) tables := by
  have members := mem_load_cohort platforms tables
  refine ⟨rfl, accounts.issued.load, accounts.known, accounts.stored,
    ⟨members, rfl, accounts.mirrors.apart⟩, fun puuid pid here outside => ?_, fun pid counted => ?_⟩
  · rw [members, ← accounts.mirrors.members] at outside
    rw [← accounts.seen puuid pid here outside, accounts.mirrors.counts]
    rfl
  · apply accounts.someone
    rw [accounts.mirrors.counts]
    exact counted

end Calls

/-! ## Runs -/

inductive StoreOp where
  | storeMatch (given : Match) (clock : Clock)
  | cohortAddBatch (players : List Nat) (source nowMs : Nat)
  | assignPlayerIds (puuids : List String)
  | commit (nowMs : Nat) (order : List String)
  /-- The store is closed, and opened again. -/
  | reopen (platforms : List String)

/-- One operation, free of faults. A database that is closed keeps its tables. -/
def StoreStep (state : State) : StoreOp → State → Prop
  | .storeMatch given clock, next => ∃ adopted,
      Ends (storeMatch codecs given.record given.puuids given.tsMs given.growthPaused clock) state
        adopted next
  | .cohortAddBatch players source nowMs, next => ∃ new,
      Ends (cohortAddBatch players source nowMs) state new next
  | .assignPlayerIds puuids, next => ∃ ids, Ends (assignPlayerIds puuids) state ids next
  | .commit nowMs order, next => Ends (commit codecs nowMs order) state () next
  | .reopen platforms, next =>
      Ends (openStore platforms) { state with ram := .empty } () next

/-- The matches that were stored. -/
def StoreOp.stored : StoreOp → List Match
  | .storeMatch given _ => [given]
  | .cohortAddBatch .. | .assignPlayerIds _ | .commit .. | .reopen _ => []

section Runs

variable {codecs} {calls : List Match} {state next : State}

/-- A match that was stored before, and a remake, change no more than the players. -/
theorem committed_idle {given : Match}
    (idle : given.real = false ∨ (state.tables.progress.get given.key).isSome) :
    (given.committed state).ram = (state.ram.assign given.puuids).1 ∧ given.adopted state = [] := by
  show (given.inTxn state).ram = _ ∧ _
  rw [Match.adopted, Match.inTxn, Match.effects]
  cases found : state.tables.progress.get given.key with
  | some progress => simp [Match.entered, State.withPlayers]
  | none =>
      have remake : given.real = false := by simpa [found] using idle
      have kind : isRemake given.record = true := by simpa [Match.real] using remake
      simp [remake, kind, Match.entered, State.withPlayers]

/-- A new game sights its players. -/
theorem committed_sights {given : Match} (real : given.real = true)
    (new : state.tables.progress.get given.key = none) :
    (given.committed state).ram.cohort =
        (sightAll given.tsMs given.growthPaused (given.pids state.ram)
          ((given.entered state).ram, (given.entered state).working)).1.cohort ∧
      given.adopted state =
        adoptedBy given.tsMs given.growthPaused ((given.pids state.ram).zip given.puuids)
          ((given.entered state).ram, (given.entered state).working) := by
  have whole : (given.committed state).ram = (given.inTxn state).ram := rfl
  rw [whole, inTxn_new real new, Match.adopted, real, new]
  obtain ⟨cohort, -, -, -⟩ := withMatch_rest
    (given.sighted (given.pids state.ram) (given.entered state)) given.record.platform
    given.record.gameId given.tsMs (given.pids state.ram)
  exact ⟨cohort, rfl⟩

/-- Within the transaction, nothing but the ids changes the players. -/
theorem effects_players (given : Match) (alreadyStored : Bool) (pids : List Nat) (state : State) :
    (given.effects alreadyStored pids state).ram.players = state.ram.players ∧
      (given.effects alreadyStored pids state).ram.nextPlayerId = state.ram.nextPlayerId ∧
      (given.effects alreadyStored pids state).working.players = state.working.players := by
  unfold Match.effects
  split
  · exact ⟨rfl, rfl, rfl⟩
  · split
    · have alike := sightAll_alike given.tsMs given.growthPaused (state.ram, state.working) pids
      obtain ⟨players, next, rows, -, -⟩ := withValid_alike
        { given.sighted pids state with
          working := ((given.sighted pids state).working.tracked given.record.platform
            given.record.gameId given.tsMs pids).1 } given.record.platform
        (given.newlyValid pids (given.sighted pids state).working)
      exact ⟨players.trans alike.players, next.trans alike.next, rows.trans alike.rows⟩
    · exact ⟨rfl, rfl, rfl⟩

/-- A match makes its players known. -/
theorem committed_players (given : Match) (state : State) :
    (given.committed state).ram.players = (state.ram.assign given.puuids).1.players :=
  (effects_players given _ _ (given.entered state)).1

/-- A match issues ids to its new players. -/
theorem committed_next (given : Match) (state : State) :
    (given.committed state).ram.nextPlayerId = (state.ram.assign given.puuids).1.nextPlayerId :=
  (effects_players given _ _ (given.entered state)).2.1

/-- The rows of a match's players. -/
theorem committed_playerRows (given : Match) (state : State) :
    (given.committed state).tables.players =
      addPlayers state.tables.players (state.ram.assign given.puuids).2.2 :=
  (effects_players given _ _ (given.entered state)).2.2

/-- The memory and the tables get the same players. -/
theorem SamePlayers.committed (same : SamePlayers state.ram state.tables.players)
    (given : Match) :
    SamePlayers (given.committed state).ram (given.committed state).tables.players := by
  rw [SamePlayers, committed_players, committed_playerRows]
  exact same.assign given.puuids

/-- A member that is new is no new player. -/
theorem enrolled_players (new : List Nat) (ram : Ram) :
    (new.foldl Ram.enrol ram).players = ram.players := by
  induction new generalizing ram with
  | nil => rfl
  | cons pid new ih => exact ih (ram.enrol pid)

/-- **Each operation** keeps the accounts and takes nothing back. -/
theorem StoreStep.accounts {op : StoreOp} (step : StoreStep codecs state op next)
    (accounts : Accounts calls state.ram state.tables) (games : SameGames (calls ++ op.stored)) :
    Accounts (calls ++ op.stored) next.ram next.tables ∧ Keeps state.ram next.ram := by
  cases op with
  | storeMatch given clock =>
      obtain ⟨adopted, ends⟩ := step
      obtain ⟨-, aside⟩ := storeMatch_ends codecs ends
      refine ⟨(accounts.committed games).aside aside, ?_⟩
      have players : next.ram.players = (state.ram.assign given.puuids).1.players := by
        rw [aside.players]
        exact committed_players given state
      intro puuid pid here
      rw [players]
      exact keeps_assign state.ram given.puuids puuid pid here
  | cohortAddBatch players source nowMs =>
      obtain ⟨new, ends⟩ := step
      obtain ⟨_, added⟩ := cohortAddBatch_ends players source nowMs state
      rw [(ends.unique added).2, StoreOp.stored, List.append_nil]
      refine ⟨accounts.enrolled nowMs source _, fun puuid pid here => ?_⟩
      rw [enrolled_players]
      exact here
  | assignPlayerIds puuids =>
      obtain ⟨ids, ends⟩ := step
      have assigned := assignPlayerIds_ends puuids state
      rw [(ends.unique assigned).2, StoreOp.stored, List.append_nil]
      exact ⟨accounts.withPlayers puuids, keeps_assign state.ram puuids⟩
  | commit nowMs order =>
      obtain ⟨after, players⟩ := accounts.commit codecs nowMs order
      have ends : commit codecs nowMs order ⟨state, .never⟩ = (.ok (), ⟨next, .never⟩) := step
      rw [ends] at after players
      rw [StoreOp.stored, List.append_nil]
      refine ⟨after, fun puuid pid here => ?_⟩
      rw [players]
      exact here
  | reopen platforms =>
      have ends : Ends (openStore platforms) { state with ram := .empty } () next := step
      rw [(ends.unique (openStore_ends platforms _)).2, StoreOp.stored, List.append_nil]
      refine ⟨accounts.load platforms, fun puuid pid here => ?_⟩
      rw [accounts.players] at here
      exact here

/-- The game is new, it counts for the player, and it is at least the player's second. -/
def Match.enters (calls : List Match) (given : Match) (puuid : String) : Prop :=
  puuid ∈ given.puuids ∧ given.real = true ∧ (∀ game ∈ calls, game.key ≠ given.key) ∧
    given.growthPaused = false ∧ adoptionThreshold ≤ sightings (calls ++ [given]) puuid

/-- Whom a call takes into the cohort, and whom it lists. -/
structure AdoptsExactly (calls : List Match) (given : Match) (state next : State)
    (adopted : List (Nat × String)) : Prop where
  stays : ∀ pid ∈ state.ram.cohort, pid ∈ next.ram.cohort
  enters : ∀ puuid pid, next.tables.players.get puuid = some pid → pid ∉ state.ram.cohort →
    (pid ∈ next.ram.cohort ↔ given.enters calls puuid)
  /-- A player is on the list when the call takes it into the cohort. -/
  listed : ∀ puuid pid, (pid, puuid) ∈ adopted ↔
    next.tables.players.get puuid = some pid ∧ pid ∉ state.ram.cohort ∧ pid ∈ next.ram.cohort
  everyone : ∀ pid ∈ next.ram.cohort, pid ∉ state.ram.cohort → ∃ puuid, (pid, puuid) ∈ adopted

/-- Nobody is adopted: neither by a match that was stored before nor by a remake. -/
theorem AdoptsExactly.idle {given : Match}
    (same : next.ram.cohort = state.ram.cohort)
    (idle : ∀ puuid, ¬ given.enters calls puuid) :
    AdoptsExactly calls given state next [] where
  stays pid member := by
    rw [same]
    exact member
  enters puuid pid _ outside := by
    rw [same]
    exact ⟨fun member => (outside member).elim, fun enters => (idle puuid enters).elim⟩
  listed puuid pid := by
    rw [same]
    exact ⟨nofun, fun ⟨_, outside, member⟩ => (outside member).elim⟩
  everyone pid member outside := by
    rw [same] at member
    exact (outside member).elim

/-- The players of a call, with their ids. -/
theorem Numbered.mem_zip {given : Match} {players : Table String Nat} {pids : List Nat}
    (numbered : Numbered given players pids) {pid : Nat} {puuid : String} :
    (pid, puuid) ∈ pids.zip given.puuids ↔
      puuid ∈ given.puuids ∧ players.get puuid = some pid := by
  rw [List.mem_iff_getElem?]
  constructor
  · rintro ⟨slot, takes⟩
    obtain ⟨one, two⟩ := List.getElem?_zip_eq_some.mp takes
    exact ⟨List.mem_of_getElem? two, (numbered.get two).symm.trans one⟩
  · rintro ⟨inside, here⟩
    obtain ⟨slot, takes⟩ := List.mem_iff_getElem?.mp inside
    exact ⟨slot, List.getElem?_zip_eq_some.mpr ⟨(numbered.get takes).trans here, takes⟩⟩

/-- The numbers of a match are those of its players. -/
theorem Numbered.mem_iff {given : Match} {players : Table String Nat} {pids : List Nat} {next : Nat}
    (numbered : Numbered given players pids) (issued : Issued players next) {puuid : String}
    {pid : Nat} (here : players.get puuid = some pid) : pid ∈ pids ↔ puuid ∈ given.puuids := by
  constructor
  · intro inside
    obtain ⟨slot, takes⟩ := List.mem_iff_getElem?.mp inside
    obtain ⟨other, there, known⟩ := numbered.plays_iff.mpr takes
    rw [issued.injective here known]
    exact List.mem_of_getElem? there
  · intro plays
    obtain ⟨slot, takes⟩ := List.mem_iff_getElem?.mp plays
    exact List.mem_of_getElem? ((numbered.get takes).trans here)

/-- Those who were in the cohort, and those of a new game whom it adopts. -/
theorem mem_committed_cohort {given : Match} (real : given.real = true)
    (new : state.tables.progress.get given.key = none) (distinct : (given.pids state.ram).Nodup)
    (pid : Nat) :
    pid ∈ (given.committed state).ram.cohort ↔ pid ∈ state.ram.cohort ∨
      pid ∈ given.pids state.ram ∧
        (given.entered state).ram.adopts given.growthPaused pid = true := by
  have before : pid ∈ (given.entered state).ram.cohort ↔ pid ∈ state.ram.cohort := by
    show pid ∈ (state.ram.assign given.puuids).1.cohort ↔ _
    rw [assign_rest]
  rw [(committed_sights real new).1, ← before]
  by_cases inside : pid ∈ given.pids state.ram
  · rw [(sightAll_self given.tsMs given.growthPaused _ distinct inside).1]
    simp [inside]
  · rw [(sightAll_apart given.tsMs given.growthPaused _ inside).1]
    simp [inside]

/-- What `Ram.adopts` means to a player of a new game. -/
theorem Accounts.adopts_iff {ram : Ram} {tables : Tables} {given : Match} {puuid : String}
    {pid : Nat} (accounts : Accounts calls ram tables) (real : given.real = true)
    (new : ∀ game ∈ calls, game.key ≠ given.key) (plays : puuid ∈ given.puuids)
    (here : tables.players.get puuid = some pid) :
    ram.adopts given.growthPaused pid = true ↔ pid ∉ ram.cohort ∧ given.enters calls puuid := by
  have shows : given.shows puuid = true := Match.shows_iff.mpr ⟨real, plays⟩
  have counted : sightings (calls ++ [given]) puuid = sightings calls puuid + 1 := by
    rw [sightings, sightings, distinctGames_append_new new, shows]
    rfl
  rw [Ram.adopts, Bool.and_eq_true, Bool.and_eq_true, Bool.not_eq_true', decide_eq_true_eq,
    decide_eq_true_eq, Match.enters, counted]
  constructor
  · rintro ⟨⟨outside, growing⟩, enough⟩
    rw [accounts.seen puuid pid here outside] at enough
    exact ⟨outside, plays, real, new, growing, enough⟩
  · rintro ⟨outside, -, -, -, growing, enough⟩
    rw [accounts.seen puuid pid here outside]
    exact ⟨⟨outside, growing⟩, enough⟩

/-- **A call adopts** exactly the outsiders that reach the threshold by it. -/
theorem Accounts.adopts {given : Match} {clock : Clock} {adopted : List (Nat × String)}
    (accounts : Accounts calls state.ram state.tables) (games : SameGames (calls ++ [given]))
    (ends : Ends (storeMatch codecs given.record given.puuids given.tsMs given.growthPaused clock)
      state adopted next) :
    AdoptsExactly calls given state next adopted := by
  obtain ⟨rfl, aside⟩ := storeMatch_ends codecs ends
  have cohort : (state.ram.assign given.puuids).1.cohort = state.ram.cohort := by rw [assign_rest]
  have rows : next.tables.players = (state.ram.assign given.puuids).1.players := by
    rw [← ((accounts.committed games).aside aside).players, aside.players, committed_players]
  by_cases idle : given.real = false ∨ (state.tables.progress.get given.key).isSome
  · obtain ⟨same, nobody⟩ := committed_idle idle
    rw [nobody]
    refine AdoptsExactly.idle (by rw [aside.members, same, cohort]) fun puuid enters => ?_
    obtain ⟨-, real, new, -⟩ := enters
    rcases idle with remake | stored
    · rw [real] at remake
      cases remake
    · obtain ⟨game, inside, there⟩ := (accounts.stored given.key).mp stored
      exact new game inside there
  · rw [not_or, Bool.not_eq_false, Option.not_isSome_iff_eq_none] at idle
    obtain ⟨real, absent⟩ := idle
    have new : ∀ game ∈ calls, game.key ≠ given.key := by
      intro game inside same
      have there := (accounts.stored given.key).mpr ⟨game, inside, same⟩
      rw [absent] at there
      cases there
    obtain ⟨-, listed⟩ := committed_sights real absent
    have entered : Accounts calls (given.entered state).ram (given.entered state).working :=
      accounts.withPlayers given.puuids
    have numbered : Numbered given (given.entered state).working.players (given.pids state.ram) :=
      numbered_pids accounts.players
    have distinct : (given.pids state.ram).Nodup :=
      numbered.nodup entered.issued (games.distinct given (by simp))
    have rows' : (given.entered state).working.players = next.tables.players := by
      rw [rows, ← entered.players]
      rfl
    have after : ∀ pid, pid ∈ next.ram.cohort ↔ pid ∈ state.ram.cohort ∨
        pid ∈ given.pids state.ram ∧
          (given.entered state).ram.adopts given.growthPaused pid = true := by
      intro pid
      rw [aside.members]
      exact mem_committed_cohort real absent distinct pid
    have adopts : ∀ puuid pid, puuid ∈ given.puuids → next.tables.players.get puuid = some pid →
        ((given.entered state).ram.adopts given.growthPaused pid = true ↔
          pid ∉ state.ram.cohort ∧ given.enters calls puuid) := by
      intro puuid pid plays here
      rw [← rows'] at here
      rw [← cohort]
      exact entered.adopts_iff real new plays here
    have ids : ∀ puuid pid, next.tables.players.get puuid = some pid →
        (pid ∈ given.pids state.ram ↔ puuid ∈ given.puuids) := by
      rw [← rows']
      exact fun puuid pid here => numbered.mem_iff entered.issued here
    have enters : ∀ puuid pid, next.tables.players.get puuid = some pid →
        pid ∉ state.ram.cohort → (pid ∈ next.ram.cohort ↔ given.enters calls puuid) := by
      intro puuid pid here outside
      rw [after, ids puuid pid here]
      constructor
      · rintro (member | ⟨plays, adopted⟩)
        · exact (outside member).elim
        · exact ((adopts puuid pid plays here).mp adopted).2
      · intro enters
        exact .inr ⟨enters.1, (adopts puuid pid enters.1 here).mpr ⟨outside, enters⟩⟩
    have zipped : ((given.pids state.ram).zip given.puuids).map Prod.fst = given.pids state.ram :=
      List.map_fst_zip (Nat.le_of_eq numbered.length)
    have onList : ∀ puuid pid, (pid, puuid) ∈ given.adopted state ↔
        next.tables.players.get puuid = some pid ∧ pid ∉ state.ram.cohort ∧
          pid ∈ next.ram.cohort := by
      intro puuid pid
      rw [listed, mem_adoptedBy _ _ _ (by rw [zipped]; exact distinct), numbered.mem_zip, rows']
      constructor
      · rintro ⟨⟨plays, here⟩, adopted⟩
        have outside := ((adopts puuid pid plays here).mp adopted).1
        exact ⟨here, outside, (after pid).mpr (.inr ⟨(ids puuid pid here).mpr plays, adopted⟩)⟩
      · rintro ⟨here, outside, member⟩
        have enters := (enters puuid pid here outside).mp member
        exact ⟨⟨enters.1, here⟩, (adopts puuid pid enters.1 here).mpr ⟨outside, enters⟩⟩
    refine ⟨fun pid member => (after pid).mpr (.inl member), enters, onList,
      fun pid member outside => ?_⟩
    rcases (after pid).mp member with here | ⟨inside, -⟩
    · exact (outside here).elim
    · obtain ⟨slot, takes⟩ := List.mem_iff_getElem?.mp inside
      obtain ⟨puuid, -, known⟩ := numbered.plays_iff.mpr takes
      exact ⟨puuid, (onList puuid pid).mpr ⟨rows' ▸ known, outside, member⟩⟩

/-- **A run** keeps the accounts of the matches that it stores. -/
theorem Accounts.run {ops : List StoreOp} (run : Run (StoreStep codecs) state ops next)
    (accounts : Accounts calls state.ram state.tables)
    (games : SameGames (calls ++ ops.flatMap StoreOp.stored)) :
    Accounts (calls ++ ops.flatMap StoreOp.stored) next.ram next.tables ∧
      Keeps state.ram next.ram := by
  induction run generalizing calls with
  | nil state =>
      rw [List.flatMap_nil, List.append_nil]
      exact ⟨accounts, fun _ _ here => here⟩
  | cons step _ ih =>
      rw [List.flatMap_cons, ← List.append_assoc] at games ⊢
      obtain ⟨between, kept⟩ := step.accounts accounts games.of_left
      obtain ⟨after, keeps⟩ := ih between games
      exact ⟨after, fun puuid pid here => keeps puuid pid (kept puuid pid here)⟩

/-- An empty store has nothing in its accounts. -/
theorem accounts_opened (platforms : List String) :
    Accounts [] (opened platforms).ram (opened platforms).tables := by
  refine ⟨rfl, ⟨nofun, nofun⟩, nofun, fun key => ⟨nofun, ?_⟩, ⟨fun pid => ?_, rfl, nofun⟩, nofun,
    nofun⟩
  · rintro ⟨_, inside, _⟩
    cases inside
  · constructor
    · intro member
      cases Finset.notMem_empty pid member
    · nofun

end Runs

/-- **Cohort and outsider accounting.** In every state of every run on an empty directory the
memory mirrors the tables, no member of the cohort is counted as an outsider, no two players share
an id, the next id is unused, and an outsider's count is the number of its games. Ids never change
again, and the next call of `store_match` adopts exactly the players its game brings to the
threshold, and lists exactly those. -/
theorem cohort_accounting (platforms : List String) {ops : List StoreOp} {state : State}
    (run : Run (StoreStep codecs) (opened platforms) ops state)
    (games : SameGames (ops.flatMap StoreOp.stored)) :
    Accounts (ops.flatMap StoreOp.stored) state.ram state.tables ∧
      (∀ rest later, Run (StoreStep codecs) state rest later →
        SameGames ((ops ++ rest).flatMap StoreOp.stored) → Keeps state.ram later.ram) ∧
      ∀ (given : Match) clock adopted next,
        Ends (storeMatch codecs given.record given.puuids given.tsMs given.growthPaused clock) state
          adopted next →
        SameGames (ops.flatMap StoreOp.stored ++ [given]) →
        AdoptsExactly (ops.flatMap StoreOp.stored) given state next adopted := by
  obtain ⟨accounts, -⟩ := (accounts_opened platforms).run run games
  refine ⟨accounts, fun rest later further games' => ?_, fun given clock adopted next ends games' =>
    accounts.adopts games' ends⟩
  rw [List.flatMap_append] at games'
  exact (Accounts.run further accounts games').2

/-- A call that can be computed without a cut ends as it does. -/
theorem storeOne_ends (state : State) (call : Match × Clock) (adopted : List (Nat × String))
    (result : (storeMatch codecs call.1.record call.1.puuids call.1.tsMs call.1.growthPaused call.2
      ⟨state, .never⟩).1 = .ok adopted)
    (cut : (storeMatch codecs call.1.record call.1.puuids call.1.tsMs call.1.growthPaused call.2
      ⟨state, .never⟩).2.cut = .never) :
    Ends (storeMatch codecs call.1.record call.1.puuids call.1.tsMs
      call.1.growthPaused call.2) state
      adopted (storeOne codecs state call) :=
  Ends.of_eq result cut

/-- A game of ten players, and another one. -/
def firstGame : Match × Clock := (sampleMatch "EUW1" 1 1000 1800, sampleClock)

def secondGame : Match × Clock := (sampleMatch "EUW1" 2 2000 1800, sampleClock)

/-- The first game, stored twice. -/
def seenOnce : State :=
  storeOne shortCodecs (storeOne shortCodecs (opened ["EUW1"]) firstGame) firstGame

set_option maxRecDepth 20000 in
/-- A first game is stored twice, and a second one adopts its ten players. -/
theorem cohort_accounting_second_game :
    ∃ adopted, Run (StoreStep shortCodecs) (opened ["EUW1"])
        [.storeMatch firstGame.1 firstGame.2, .storeMatch firstGame.1 firstGame.2] seenOnce ∧
      AdoptsExactly [firstGame.1, firstGame.1] secondGame.1 seenOnce
        (storeOne shortCodecs seenOnce secondGame) adopted ∧
      adopted.length = 10 := by
  have one := storeOne_ends shortCodecs (opened ["EUW1"]) firstGame [] (by decide +kernel)
    (by decide +kernel)
  have two := storeOne_ends shortCodecs (storeOne shortCodecs (opened ["EUW1"]) firstGame) firstGame
    [] (by decide +kernel) (by decide +kernel)
  have three := storeOne_ends shortCodecs seenOnce secondGame
    [(1, "a"), (2, "b"), (3, "c"), (4, "d"), (5, "e"), (6, "f"), (7, "g"), (8, "h"), (9, "i"),
      (10, "j")] (by decide +kernel) (by decide +kernel)
  have run : Run (StoreStep shortCodecs) (opened ["EUW1"])
      [.storeMatch firstGame.1 firstGame.2, .storeMatch firstGame.1 firstGame.2] seenOnce :=
    .cons ⟨_, one⟩ (.cons ⟨_, two⟩ (.nil _))
  have games : SameGames [firstGame.1, firstGame.1, secondGame.1] := ⟨by decide, by decide⟩
  exact ⟨_, run, (cohort_accounting shortCodecs ["EUW1"] run ⟨by decide, by decide⟩).2.2 _ _ _ _
    three games, rfl⟩

end LolCrawler.Store
