import LolCrawler.Store.Games

/-! # Sample progress

`Tracks` says what the tables hold after a run of `store_match` calls: a timeline
with the run's games, and a progress record for each of them. A new game enters with
its players' earlier games, and then gives credit to their later ones, player by
player (`Crediting`).
-/

namespace LolCrawler.Store

open Foundation

/-- The player with this id takes this slot of the game. -/
def Match.Plays (given : Match) (players : Table String Nat) (slot pid : Nat) : Prop :=
  ∃ puuid, given.puuids[slot]? = some puuid ∧ players.get puuid = some pid

/-- The tables and the memory after these calls. -/
structure Tracks (calls : List Match) (ram : Ram) (tables : Tables) : Prop where
  players : ram.players = tables.players
  issued : Issued tables.players ram.nextPlayerId
  known : ∀ given ∈ calls, ∀ puuid ∈ given.puuids, ∃ pid, tables.players.get puuid = some pid
  timeline : ∀ pid tsMs gameId slot, tables.playerTl.get (pid, tsMs) = some (gameId, slot) ↔
    ∃ given ∈ calls, given.real ∧ given.record.gameId = gameId ∧ given.tsMs = tsMs ∧
      given.Plays tables.players slot pid
  real : ∀ given ∈ calls, given.real → tables.progress.get given.key =
    some (progressOf (given.puuids.map fun puuid => earlier calls puuid given.tsMs))
  remake : ∀ given ∈ calls, given.real = false → tables.progress.get given.key = some []
  absent : ∀ key, (∀ given ∈ calls, given.key ≠ key) → tables.progress.get key = none
  ramValid : ∀ platform,
    (ram.validSamples.get platform).getD 0 = validCount tables.progress platform
  valid : ∀ platform, (tables.validSamples.get platform).getD 0 =
    validCount tables.progress platform

/-- The parts that matter here are the same. -/
structure Alike (ram : Ram) (tables : Tables) (ram' : Ram) (tables' : Tables) : Prop where
  players : ram'.players = ram.players
  next : ram'.nextPlayerId = ram.nextPlayerId
  ramValid : ram'.validSamples = ram.validSamples
  rows : tables'.players = tables.players
  timeline : tables'.playerTl = tables.playerTl
  progress : tables'.progress = tables.progress
  valid : tables'.validSamples = tables.validSamples

/-- Everything is like itself. -/
theorem Alike.refl (ram : Ram) (tables : Tables) : Alike ram tables ram tables :=
  ⟨rfl, rfl, rfl, rfl, rfl, rfl, rfl⟩

/-- Likeness is transitive. -/
theorem Alike.trans {ram ram' ram'' : Ram} {tables tables' tables'' : Tables}
    (one : Alike ram tables ram' tables') (two : Alike ram' tables' ram'' tables'') :
    Alike ram tables ram'' tables'' :=
  ⟨two.players.trans one.players, two.next.trans one.next, two.ramValid.trans one.ramValid,
    two.rows.trans one.rows, two.timeline.trans one.timeline, two.progress.trans one.progress,
    two.valid.trans one.valid⟩

namespace Tracks

variable {calls : List Match} {ram : Ram} {tables : Tables} {given : Match}

/-- The tracks are about these parts alone. -/
theorem congr {ram' : Ram} {tables' : Tables} (tracks : Tracks calls ram tables)
    (alike : Alike ram tables ram' tables') : Tracks calls ram' tables' where
  players := by rw [alike.players, alike.rows, tracks.players]
  issued := by
    rw [alike.rows, alike.next]
    exact tracks.issued
  known := by
    rw [alike.rows]
    exact tracks.known
  timeline := by
    rw [alike.rows, alike.timeline]
    exact tracks.timeline
  real := by
    rw [alike.progress]
    exact tracks.real
  remake := by
    rw [alike.progress]
    exact tracks.remake
  absent := by
    rw [alike.progress]
    exact tracks.absent
  ramValid := by
    rw [alike.ramValid, alike.progress]
    exact tracks.ramValid
  valid := by
    rw [alike.valid, alike.progress]
    exact tracks.valid

/-- New players change nothing for the games. -/
theorem withPlayers (tracks : Tracks calls ram tables) (puuids : List String) :
    Tracks calls (ram.assign puuids).1
      { tables with players := addPlayers tables.players (ram.assign puuids).2.2 } := by
  have rows : addPlayers tables.players (ram.assign puuids).2.2 =
    (ram.assign puuids).1.players := by
    rw [players_assign, tracks.players]
  have keeps : ∀ {puuid pid}, tables.players.get puuid = some pid →
      (ram.assign puuids).1.players.get puuid = some pid := by
    intro puuid pid here
    rw [← tracks.players] at here
    exact keeps_assign ram puuids _ _ here
  rw [rows]
  refine ⟨rfl, ?_, ?_, ?_, tracks.real, tracks.remake, tracks.absent, ?_, tracks.valid⟩
  · apply Issued.assign
    rw [tracks.players]
    exact tracks.issued
  · intro given inside puuid plays
    obtain ⟨pid, here⟩ := tracks.known given inside puuid plays
    exact ⟨pid, keeps here⟩
  · intro pid tsMs gameId slot
    refine (tracks.timeline pid tsMs gameId slot).trans ?_
    constructor
    · rintro ⟨given, inside, real, game, time, puuid, takes, here⟩
      exact ⟨given, inside, real, game, time, puuid, takes, keeps here⟩
    · rintro ⟨given, inside, real, game, time, puuid, takes, here⟩
      obtain ⟨pid', there⟩ := tracks.known given inside puuid (List.mem_of_getElem? takes)
      rw [keeps there] at here
      cases here
      exact ⟨given, inside, real, game, time, puuid, takes, there⟩
  · rw [assign_rest]
    exact tracks.ramValid

/-- The guard sees whether the match has been stored. -/
theorem stored_iff (tracks : Tracks calls ram tables) (key : String × UInt64) :
    (tables.progress.get key).isSome ↔ ∃ game ∈ calls, game.key = key := by
  constructor
  · intro found
    by_contra absent
    simp only [not_exists, not_and] at absent
    rw [tracks.absent key absent] at found
    cases found
  · rintro ⟨game, inside, rfl⟩
    cases kind : game.real with
    | true =>
        rw [tracks.real game inside kind]
        rfl
    | false =>
        rw [tracks.remake game inside kind]
        rfl

/-- A match that is stored again. -/
theorem again (tracks : Tracks calls ram tables) (consistent : Consistent (calls ++ [given]))
    {game : Match} (there : game ∈ calls) (same : game.key = given.key) :
    Tracks (calls ++ [given]) ram tables := by
  obtain ⟨players, duration, time⟩ := consistent.same game (by simp [there]) given (by simp) same
  have kind : given.real = game.real := by
    rw [Match.real, Match.real, isRemake, isRemake, duration]
  refine ⟨tracks.players, tracks.issued, ?_, ?_, ?_, ?_, ?_, tracks.ramValid, tracks.valid⟩
  · intro other inside puuid plays
    rcases List.mem_append.mp inside with inside | inside
    · exact tracks.known other inside puuid plays
    · rw [List.mem_singleton] at inside
      subst inside
      exact tracks.known game there puuid (players ▸ plays)
  · intro pid tsMs gameId slot
    refine (tracks.timeline pid tsMs gameId slot).trans ?_
    constructor
    · rintro ⟨other, inside, rest⟩
      exact ⟨other, List.mem_append_left _ inside, rest⟩
    · rintro ⟨other, inside, real, id, when, puuid, takes, here⟩
      rcases List.mem_append.mp inside with inside | inside
      · exact ⟨other, inside, real, id, when, puuid, takes, here⟩
      · rw [List.mem_singleton] at inside
        subst inside
        have id' : game.record.gameId = other.record.gameId := congrArg Prod.snd same
        exact ⟨game, there, kind ▸ real, id'.trans id, time.trans when, puuid,
          players ▸ takes, here⟩
  · intro other inside real
    simp only [earlier_append_again consistent there same]
    rcases List.mem_append.mp inside with inside | inside
    · exact tracks.real other inside real
    · rw [List.mem_singleton] at inside
      subst inside
      rw [← same, ← players, ← time]
      exact tracks.real game there (kind ▸ real)
  · intro other inside remake
    rcases List.mem_append.mp inside with inside | inside
    · exact tracks.remake other inside remake
    · rw [List.mem_singleton] at inside
      subst inside
      rw [← same]
      exact tracks.remake game there (kind ▸ remake)
  · intro key absent
    exact tracks.absent key fun other inside => absent other (List.mem_append_left _ inside)

/-- The marker of a new remake keeps the progress exact. -/
theorem marker (tracks : Tracks calls ram tables) (new : ∀ game ∈ calls, game.key ≠ given.key)
    (remake : given.real = false)
    (known : ∀ puuid ∈ given.puuids, ∃ pid, tables.players.get puuid = some pid) :
    Tracks (calls ++ [given]) ram
      { tables with progress := tables.progress.insert given.key [] } := by
  have absent := tracks.absent given.key new
  have uncounted : ∀ puuid tsMs,
    earlier (calls ++ [given]) puuid tsMs = earlier calls puuid tsMs := by
    intro puuid tsMs
    rw [earlier_append_new new, Match.counts, remake]
    rfl
  have valid : ∀ platform, validCount (tables.progress.insert given.key []) platform =
      validCount tables.progress platform := by
    intro platform
    rw [validCount_insert_new absent]
    simp [flagged]
  refine ⟨tracks.players, tracks.issued, ?_, ?_, ?_, ?_, ?_, ?_, ?_⟩
  · intro other inside puuid plays
    rcases List.mem_append.mp inside with inside | inside
    · exact tracks.known other inside puuid plays
    · rw [List.mem_singleton] at inside
      subst inside
      exact known puuid plays
  · intro pid tsMs gameId slot
    refine (tracks.timeline pid tsMs gameId slot).trans ?_
    constructor
    · rintro ⟨other, inside, rest⟩
      exact ⟨other, List.mem_append_left _ inside, rest⟩
    · rintro ⟨other, inside, real, rest⟩
      rcases List.mem_append.mp inside with inside | inside
      · exact ⟨other, inside, real, rest⟩
      · rw [List.mem_singleton] at inside
        rw [inside, remake] at real
        cases real
  · intro other inside real
    simp only [uncounted]
    rcases List.mem_append.mp inside with inside | inside
    · rw [Table.get_insert_of_ne _ _ (new other inside)]
      exact tracks.real other inside real
    · rw [List.mem_singleton] at inside
      rw [inside, remake] at real
      cases real
  · intro other inside kind
    rcases List.mem_append.mp inside with inside | inside
    · rw [Table.get_insert_of_ne _ _ (new other inside)]
      exact tracks.remake other inside kind
    · rw [List.mem_singleton] at inside
      rw [inside, Table.get_insert_self]
  · intro key elsewhere
    rw [Table.get_insert_of_ne _ _ (elsewhere given (by simp)).symm]
    exact tracks.absent key fun other inside => elsewhere other (List.mem_append_left _ inside)
  · intro platform
    rw [valid]
    exact tracks.ramValid platform
  · intro platform
    rw [valid]
    exact tracks.valid platform

end Tracks

/-! ## Timelines -/

section Timeline

variable {tables : Tables} {pid : Nat} {within : Nat → Bool} {entry : TlEntry}

/-- The timeline of a player has the rows of the player. -/
theorem mem_timeline :
    entry ∈ tables.timeline pid within ↔
      tables.playerTl.get entry.1 = some entry.2 ∧ entry.1.1 = pid ∧ within entry.1.2 = true := by
  rw [Tables.timeline, List.mem_insertionSort, List.mem_filter, Table.get_eq_some]
  simp

/-- A player's games lie at different times, in order. -/
theorem timeline_sorted (tables : Tables) (pid : Nat) (within : Nat → Bool) :
    (tables.timeline pid within).Pairwise fun first second => first.1.2 < second.1.2 := by
  have ordered : (tables.timeline pid within).Pairwise fun first second =>
      first.1.2 ≤ second.1.2 := by
    have total : Std.Total fun first second : TlEntry => first.1.2 ≤ second.1.2 :=
      ⟨fun first second => Nat.le_total _ _⟩
    have trans : IsTrans TlEntry fun first second => first.1.2 ≤ second.1.2 :=
      ⟨fun _ _ _ => Nat.le_trans⟩
    exact List.pairwise_insertionSort _ _
  have apart : (tables.timeline pid within).Pairwise fun first second => first.1 ≠ second.1 := by
    have kept : (tables.playerTl.entries.filter fun entry =>
        entry.1.1 = pid && within entry.1.2).Pairwise fun first second => first.1 ≠ second.1 :=
      (List.pairwise_map.mp tables.playerTl.distinct).sublist List.filter_sublist
    exact (List.perm_insertionSort _ _).symm.pairwise kept fun different => Ne.symm different
  refine (ordered.and apart).imp_of_mem fun {first second} here there both => ?_
  have same : first.1.1 = second.1.1 :=
    (mem_timeline.mp here).2.1.trans (mem_timeline.mp there).2.1.symm
  apply Nat.lt_of_le_of_ne both.1
  intro equal
  exact both.2 (Prod.ext same equal)

end Timeline

/-- A player has a slot of a match if and only if the match names the player. -/
theorem Match.plays_iff {given : Match} {players : Table String Nat} {next : Nat}
    (issued : Issued players next) {puuid : String} {pid : Nat}
    (here : players.get puuid = some pid) :
    (∃ slot, given.Plays players slot pid) ↔ puuid ∈ given.puuids := by
  constructor
  · rintro ⟨slot, other, takes, there⟩
    rw [issued.injective here there]
    exact List.mem_of_getElem? takes
  · intro inside
    obtain ⟨slot, takes⟩ := List.mem_iff_getElem?.mp inside
    exact ⟨slot, puuid, takes, here⟩

/-- A match counts for its players before a later time. -/
theorem Match.counts_iff {given : Match} {puuid : String} {tsMs : Nat} :
    given.counts puuid tsMs = true ↔ given.real = true ∧ puuid ∈ given.puuids ∧
    given.tsMs < tsMs := by
  simp [Match.counts, and_assoc]

/-- A player's timeline has as many games before a time as the run. -/
theorem Tracks.length_timeline {calls : List Match} {ram : Ram} {tables : Tables}
    (tracks : Tracks calls ram tables) (consistent : Consistent calls) {puuid : String} {pid : Nat}
    (here : tables.players.get puuid = some pid) (tsMs : Nat) :
    (tables.timeline pid fun ts => ts < tsMs).length = earlier calls puuid tsMs := by
  have times : ((tables.timeline pid fun ts => ts < tsMs).map fun entry => entry.1.2).Perm
      ((calls.filter (Match.counts puuid tsMs)).map Match.tsMs).dedup := by
    rw [List.perm_ext_iff_of_nodup]
    · intro time
      rw [List.mem_dedup, List.mem_map, List.mem_map]
      constructor
      · rintro ⟨entry, inside, rfl⟩
        obtain ⟨held, owner, before⟩ := mem_timeline.mp inside
        rw [show entry.1 = (pid, entry.1.2) from Prod.ext owner rfl,
          show entry.2 = (entry.2.1, entry.2.2) from rfl, tracks.timeline] at held
        obtain ⟨game, inside, real, -, time, plays⟩ := held
        refine ⟨game, List.mem_filter.mpr ⟨inside, Match.counts_iff.mpr ⟨real, ?_, ?_⟩⟩, time⟩
        · exact (Match.plays_iff tracks.issued here).mp ⟨_, plays⟩
        · rw [time]
          exact of_decide_eq_true before
      · rintro ⟨game, inside, rfl⟩
        obtain ⟨inside, counts⟩ := List.mem_filter.mp inside
        obtain ⟨real, plays, before⟩ := Match.counts_iff.mp counts
        obtain ⟨slot, takes⟩ := (Match.plays_iff tracks.issued here).mpr plays
        refine ⟨((pid, game.tsMs), (game.record.gameId, slot)), mem_timeline.mpr ⟨?_, rfl, ?_⟩, rfl⟩
        · exact (tracks.timeline _ _ _ _).mpr ⟨game, inside, real, rfl, rfl, takes⟩
        · exact decide_eq_true before
    · rw [List.nodup_iff_pairwise_ne, List.pairwise_map]
      exact (timeline_sorted _ _ _).imp Nat.ne_of_lt
    · exact List.nodup_dedup _
  rw [← List.length_map fun entry : TlEntry => entry.1.2, times.length_eq, earlier]
  apply length_dedup_map_congr
  intro first inside second inside'
  obtain ⟨one, counts⟩ := List.mem_filter.mp inside
  obtain ⟨two, counts'⟩ := List.mem_filter.mp inside'
  obtain ⟨-, plays, -⟩ := Match.counts_iff.mp counts
  obtain ⟨-, plays', -⟩ := Match.counts_iff.mp counts'
  constructor
  · intro equal
    by_contra different
    exact consistent.apart first one second two puuid plays plays' different equal
  · intro equal
    exact (consistent.same first one second two equal).2.2

/-! ## Entering a game -/

section Enter

variable {gameId : UInt64} {tsMs : Nat}

/-- Other rows are not entered. -/
theorem get_enterTimeline_of_ne {pid time : Nat} {pids : List Nat}
    (other : time ≠ tsMs ∨ pid ∉ pids) (slot : Nat) (timeline : Table (Nat × Nat) (UInt64 × Nat)) :
    (enterTimeline gameId tsMs slot pids timeline).get (pid, time) = timeline.get (pid, time) := by
  induction pids generalizing slot timeline with
  | nil => rfl
  | cons first pids ih =>
      rw [enterTimeline, ih (other.imp_right fun outside inside =>
        outside (List.mem_cons_of_mem _ inside)), Table.get_insert_of_ne]
      rintro ⟨⟩
      simp at other

/-- The row of a player is entered. -/
theorem get_enterTimeline {pid index : Nat} {pids : List Nat} (distinct : pids.Nodup)
    (takes : pids[index]? = some pid) (slot : Nat) (timeline : Table (Nat × Nat) (UInt64 × Nat)) :
    (enterTimeline gameId tsMs slot pids timeline).get (pid, tsMs) =
      some (gameId, slot + index) := by
  induction pids generalizing slot index timeline with
  | nil => simp at takes
  | cons first pids ih =>
      obtain ⟨outside, distinct⟩ := List.nodup_cons.mp distinct
      cases index with
      | zero =>
          cases takes
          rw [enterTimeline, get_enterTimeline_of_ne (.inr outside), Table.get_insert_self,
            Nat.add_zero]
      | succ index =>
          rw [enterTimeline, ih distinct takes, Nat.add_assoc, Nat.add_comm 1]

end Enter

/-- The timeline holds the games of these calls. -/
def HoldsGames (calls : List Match) (players : Table String Nat)
    (timeline : Table (Nat × Nat) (UInt64 × Nat)) : Prop :=
  ∀ pid tsMs gameId slot, timeline.get (pid, tsMs) = some (gameId, slot) ↔
    ∃ given ∈ calls, given.real ∧ given.record.gameId = gameId ∧ given.tsMs = tsMs ∧
      given.Plays players slot pid

/-- The ids of a match's players. -/
structure Numbered (given : Match) (players : Table String Nat) (pids : List Nat) : Prop where
  length : pids.length = given.puuids.length
  get : ∀ {slot : Nat} {puuid : String}, given.puuids[slot]? = some puuid →
    pids[slot]? = players.get puuid

/-- A player takes one slot of a game. -/
theorem slot_unique {puuids : List String} {first second : Nat} {puuid : String}
    (distinct : puuids.Nodup) (one : puuids[first]? = some puuid)
    (two : puuids[second]? = some puuid) : first = second :=
  (List.getElem?_inj (List.getElem?_eq_some_iff.mp one).1 distinct).mp (one.trans two.symm)

namespace Numbered

variable {given : Match} {players : Table String Nat} {pids : List Nat} {next : Nat}

/-- The slots of a match are the places of its ids. -/
theorem plays_iff (numbered : Numbered given players pids) {slot pid : Nat} :
    given.Plays players slot pid ↔ pids[slot]? = some pid := by
  constructor
  · rintro ⟨puuid, takes, here⟩
    rw [numbered.get takes, here]
  · intro takes
    have inside : slot < given.puuids.length := by
      rw [← numbered.length]
      exact (List.getElem?_eq_some_iff.mp takes).1
    refine ⟨given.puuids[slot], List.getElem?_eq_getElem inside, ?_⟩
    rw [← numbered.get (List.getElem?_eq_getElem inside), takes]

/-- Every player of a match is known. -/
theorem known (numbered : Numbered given players pids) {puuid : String}
    (inside : puuid ∈ given.puuids) : ∃ pid, players.get puuid = some pid := by
  obtain ⟨slot, takes⟩ := List.mem_iff_getElem?.mp inside
  have bound : slot < pids.length := by
    rw [numbered.length]
    exact (List.getElem?_eq_some_iff.mp takes).1
  exact ⟨pids[slot], by rw [← numbered.get takes, List.getElem?_eq_getElem bound]⟩

/-- Different players have different ids. -/
theorem nodup (numbered : Numbered given players pids) (issued : Issued players next)
    (distinct : given.puuids.Nodup) : pids.Nodup := by
  rw [List.nodup_iff_injective_getElem]
  intro first second same
  obtain ⟨puuid, takes, here⟩ := numbered.plays_iff.mpr (List.getElem?_eq_getElem first.2)
  obtain ⟨puuid', takes', there⟩ := numbered.plays_iff.mpr (List.getElem?_eq_getElem second.2)
  rw [show pids[second.1] = pids[first.1] from same.symm] at there
  rw [← issued.injective here there] at takes'
  exact Fin.ext (slot_unique distinct takes takes')

end Numbered

/-- A new game enters the timeline. -/
theorem HoldsGames.enter {calls : List Match} {given : Match} {players : Table String Nat}
    {pids : List Nat} {next : Nat} {timeline : Table (Nat × Nat) (UInt64 × Nat)}
    (holds : HoldsGames calls players timeline) (numbered : Numbered given players pids)
    (issued : Issued players next) (consistent : Consistent (calls ++ [given]))
    (real : given.real = true) (new : ∀ game ∈ calls, game.key ≠ given.key) :
    HoldsGames (calls ++ [given]) players
      (enterTimeline given.record.gameId given.tsMs 0 pids timeline) := by
  have distinct := numbered.nodup issued (consistent.distinct given (by simp))
  intro pid tsMs gameId slot
  by_cases here : tsMs = given.tsMs ∧ pid ∈ pids
  · obtain ⟨rfl, inside⟩ := here
    obtain ⟨index, takes⟩ := List.mem_iff_getElem?.mp inside
    rw [get_enterTimeline distinct takes, Nat.zero_add]
    constructor
    · rintro ⟨⟩
      exact ⟨given, by simp, real, rfl, rfl, numbered.plays_iff.mpr takes⟩
    · rintro ⟨game, there, -, rfl, time, plays⟩
      obtain ⟨puuid, takes₁, one⟩ := numbered.plays_iff.mpr takes
      obtain ⟨puuid', takes₂, two⟩ := plays
      rw [← issued.injective one two] at takes₂
      have same : game.key = given.key := by
        by_contra different
        exact consistent.apart game there given (by simp) puuid (List.mem_of_getElem? takes₂)
          (List.mem_of_getElem? takes₁) different time
      obtain ⟨players', -, -⟩ := consistent.same game there given (by simp) same
      rw [players'] at takes₂
      rw [slot_unique (consistent.distinct given (by simp)) takes₁ takes₂,
        show game.record.gameId = given.record.gameId from congrArg Prod.snd same]
  · have other : tsMs ≠ given.tsMs ∨ pid ∉ pids := by
      by_contra both
      simp only [not_or, not_not] at both
      exact here both
    rw [get_enterTimeline_of_ne other, holds]
    constructor
    · rintro ⟨game, there, rest⟩
      exact ⟨game, List.mem_append_left _ there, rest⟩
    · rintro ⟨game, there, real', id, time, plays⟩
      rcases List.mem_append.mp there with there | there
      · exact ⟨game, there, real', id, time, plays⟩
      · rw [List.mem_singleton] at there
        subst there
        exact absurd ⟨time.symm, List.mem_of_getElem? (numbered.plays_iff.mp plays)⟩ here

/-! ## Crediting later games -/

/-- What a slot counts once these players of a new game have given credit. -/
def creditedCount (calls : List Match) (given : Match) (done : List String) (game : Match)
    (puuid : String) : Nat :=
  earlier calls puuid game.tsMs + (decide (puuid ∈ done) && decide (given.tsMs < game.tsMs)).toNat

/-- Before any credit the counts are those of the earlier games. -/
theorem creditedCount_nil (calls : List Match) (given game : Match) :
    creditedCount calls given [] game = fun puuid => earlier calls puuid game.tsMs := by
  funext puuid
  simp [creditedCount]

/-- The records once these players of a new game have given credit, and the number of
samples that this made valid. -/
structure Crediting (calls : List Match) (given : Match)
    (before : Table (String × UInt64) (List Nat)) (done : List String)
    (found : Table (String × UInt64) (List Nat) × Nat) : Prop where
  real : ∀ game ∈ calls ++ [given], game.real → found.1.get game.key =
    some (progressOf (game.puuids.map (creditedCount calls given done game)))
  remake : ∀ game ∈ calls ++ [given], game.real = false → found.1.get game.key = some []
  absent : ∀ key, (∀ game ∈ calls ++ [given], game.key ≠ key) → found.1.get key = none
  valid : validCount found.1 given.record.platform =
    validCount before given.record.platform + found.2
  elsewhere : ∀ platform ≠ given.record.platform,
    validCount found.1 platform = validCount before platform

section Crediting

variable {calls : List Match} {given : Match} {tables : Tables} {next : Nat}

/-- The games that a player of a new game gives credit to. -/
structure LaterGame (calls : List Match) (given : Match) (puuid : String) (entry : TlEntry)
    (game : Match) : Prop where
  stored : game ∈ calls ++ [given]
  real : game.real = true
  key : game.key = (given.record.platform, entry.2.1)
  time : game.tsMs = entry.1.2
  later : given.tsMs < game.tsMs
  takes : game.puuids[entry.2.2]? = some puuid

/-- The time of a game has a next one. -/
theorem later_range (consistent : Consistent (calls ++ [given])) :
    (given.tsMs + 1) % 2 ^ 64 = given.tsMs + 1 :=
  Nat.mod_eq_of_lt (consistent.inRange given (by simp))

/-- A player's later game has a row and its progress. -/
theorem exists_laterGame (consistent : Consistent (calls ++ [given]))
    (holds : HoldsGames (calls ++ [given]) tables.players tables.playerTl)
    (issued : Issued tables.players next) (counts : given.real = true) {puuid : String} {pid : Nat}
    (inside : puuid ∈ given.puuids) (here : tables.players.get puuid = some pid) {entry : TlEntry}
    (there : entry ∈ tables.later given.tsMs pid) :
    ∃ game, LaterGame calls given puuid entry game := by
  obtain ⟨held, owner, after⟩ := mem_timeline.mp there
  rw [later_range consistent] at after
  rw [show entry.1 = (pid, entry.1.2) from Prod.ext owner rfl,
    show entry.2 = (entry.2.1, entry.2.2) from rfl, holds] at held
  obtain ⟨game, stored, real, id, time, puuid', takes, known⟩ := held
  rw [← issued.injective here known] at takes
  have platform := consistent.platform game stored given (by simp) real counts puuid
    (List.mem_of_getElem? takes) inside
  refine ⟨game, stored, real, Prod.ext platform id, time, ?_, takes⟩
  rw [time]
  exact Nat.lt_of_succ_le (of_decide_eq_true after)

/-- A later game of the player is on the timeline. -/
theorem mem_later (consistent : Consistent (calls ++ [given]))
    (holds : HoldsGames (calls ++ [given]) tables.players tables.playerTl)
    {puuid : String} {pid : Nat}
    (here : tables.players.get puuid = some pid) {game : Match} (stored : game ∈ calls ++ [given])
    (real : game.real = true) (after : given.tsMs < game.tsMs) {slot : Nat}
    (takes : game.puuids[slot]? = some puuid) :
    ((pid, game.tsMs), (game.record.gameId, slot)) ∈ tables.later given.tsMs pid := by
  refine mem_timeline.mpr ⟨?_, rfl, ?_⟩
  · exact (holds _ _ _ _).mpr ⟨game, stored, real, rfl, rfl, puuid, takes, here⟩
  · rw [later_range consistent]
    exact decide_eq_true after

/-- The counts of a game, by its id. -/
def countsOf (calls : List Match) (given : Match) (done : List String)
    (gameId : UInt64) : List Nat :=
  ((calls ++ [given]).find? fun game =>
      game.real && decide (game.key = (given.record.platform, gameId))).elim []
    fun game => game.puuids.map (creditedCount calls given done game)

/-- The counts of a match are those of its players. -/
theorem countsOf_eq (consistent : Consistent (calls ++ [given])) (done : List String)
    {game : Match} {gameId : UInt64} (stored : game ∈ calls ++ [given]) (real : game.real = true)
    (key : game.key = (given.record.platform, gameId)) :
    countsOf calls given done gameId = game.puuids.map (creditedCount calls given done game) := by
  unfold countsOf
  cases found : (calls ++ [given]).find? fun game =>
      game.real && decide (game.key = (given.record.platform, gameId)) with
  | none =>
      have none := List.find?_eq_none.mp found game stored
      simp [real, key] at none
  | some other =>
      have there := List.mem_of_find?_eq_some found
      have same : other.key = game.key := by
        have both := List.find?_some found
        simp only [Bool.and_eq_true, decide_eq_true_eq] at both
        rw [both.2, key]
      obtain ⟨players, -, time⟩ := consistent.same other there game stored same
      rw [Option.elim_some, players]
      unfold creditedCount
      rw [time]

/-- Once more in the slot of a player who had not given credit. -/
theorem raise_credited {done : List String} {game : Match} {puuid : String} {slot : Nat}
    (distinct : game.puuids.Nodup) (takes : game.puuids[slot]? = some puuid)
    (waiting : puuid ∉ done) (after : given.tsMs < game.tsMs) :
    raise (game.puuids.map (creditedCount calls given done game)) slot =
      game.puuids.map (creditedCount calls given (done ++ [puuid]) game) := by
  obtain ⟨inside, value⟩ := List.getElem?_eq_some_iff.mp takes
  apply List.ext_getElem
  · rw [raise_length, List.length_map, List.length_map]
  · intro index one two
    rw [List.length_map] at two
    simp only [raise, List.getElem_set, List.getElem_map]
    split
    · next same =>
        subst same
        rw [List.getD_eq_getElem _ _ (by rw [List.length_map]; exact inside),
          List.getElem_map, value]
        simp [creditedCount, waiting, after]
    · next different =>
        have other : game.puuids[index] ≠ puuid := by
          intro same
          apply different
          exact slot_unique distinct takes (by rw [List.getElem?_eq_getElem two, same])
        simp [creditedCount, other]

/-- The other games stay as they are. -/
theorem credited_others {done : List String} {game : Match} {puuid : String}
    (other : puuid ∉ game.puuids ∨ game.tsMs ≤ given.tsMs) :
    game.puuids.map (creditedCount calls given (done ++ [puuid]) game) =
      game.puuids.map (creditedCount calls given done game) := by
  apply List.map_congr_left
  intro player inside
  unfold creditedCount
  rcases other with absent | before
  · have different : player ≠ puuid := fun same => absent (same ▸ inside)
    simp [different]
  · simp [Nat.not_lt.mpr before]

/-- Crediting the later games of one more player keeps the credit right. -/
theorem Crediting.step {before : Table (String × UInt64) (List Nat)} {done : List String}
    {found : Table (String × UInt64) (List Nat) × Nat} {puuid : String} {pid : Nat}
    (crediting : Crediting calls given before done found)
    (consistent : Consistent (calls ++ [given]))
    (holds : HoldsGames (calls ++ [given]) tables.players tables.playerTl)
    (issued : Issued tables.players next) (counts : given.real = true)
    (inside : puuid ∈ given.puuids)
    (here : tables.players.get puuid = some pid) (waiting : puuid ∉ done) :
    Crediting calls given before (done ++ [puuid])
      (credit given.record.platform (tables.later given.tsMs pid) found) := by
  have games : ∀ entry ∈ tables.later given.tsMs pid, ∃ game,
      LaterGame calls given puuid entry game :=
    fun entry there => exists_laterGame consistent holds issued counts inside here there
  have sorted := timeline_sorted tables pid fun ts => (given.tsMs + 1) % 2 ^ 64 ≤ ts
  have credited : Credited given.record.platform (tables.later given.tsMs pid)
      (fun entry => countsOf calls given done entry.2.1) found
      (credit given.record.platform (tables.later given.tsMs pid) found) := by
    have value : ∀ entry ∈ tables.later given.tsMs pid,
        (countsOf calls given done entry.2.1).getD entry.2.2 0 =
          earlier calls puuid entry.1.2 := by
      intro entry there
      obtain ⟨game, stored, real, key, time, -, takes⟩ := games entry there
      obtain ⟨bound, at'⟩ := List.getElem?_eq_some_iff.mp takes
      rw [countsOf_eq consistent done stored real key,
        List.getD_eq_getElem _ _ (by rw [List.length_map]; exact bound), List.getElem_map, at']
      simp [creditedCount, waiting, time]
    refine credit_credited (fun entry there => ?_) ?_ ?_
    · obtain ⟨game, stored, real, key, time, -, takes⟩ := games entry there
      have ten := consistent.ten game stored
      rw [countsOf_eq consistent done stored real key]
      refine ⟨?_, by rw [List.length_map, ten], ?_⟩
      · rw [← key]
        exact crediting.real game stored real
      · rw [← ten]
        exact (List.getElem?_eq_some_iff.mp takes).1
    · refine sorted.imp_of_mem fun {first second} one two before same => ?_
      obtain ⟨game, stored, -, key, time, -, -⟩ := games first one
      obtain ⟨game', stored', -, key', time', -, -⟩ := games second two
      have equal := (consistent.same game stored game' stored' (by rw [key, key', same])).2.2
      omega
    · refine sorted.imp_of_mem fun {first second} one two before enough => ?_
      rw [value first one] at enough
      rw [value second two]
      exact Nat.le_trans enough (earlier_mono (Nat.le_of_lt before))
  refine ⟨fun game stored real => ?_, fun game stored remake => ?_, fun key absent => ?_, ?_, ?_⟩
  · by_cases affected : puuid ∈ game.puuids ∧ given.tsMs < game.tsMs
    · obtain ⟨plays, after⟩ := affected
      obtain ⟨slot, takes⟩ := List.mem_iff_getElem?.mp plays
      have platform := consistent.platform game stored given
        (by simp) real counts puuid plays inside
      have key : game.key = (given.record.platform, game.record.gameId) := Prod.ext platform rfl
      have raised := credited.raised _ (mem_later consistent holds here stored real after takes)
      rw [key, raised, countsOf_eq consistent done stored real key,
        raise_credited (consistent.distinct game stored) takes waiting after]
    · have apart : puuid ∉ game.puuids ∨ game.tsMs ≤ given.tsMs := by
        by_cases plays : puuid ∈ game.puuids
        · exact .inr (Nat.not_lt.mp fun after => affected ⟨plays, after⟩)
        · exact .inl plays
      rw [credited_others apart, credited.others _ fun entry there same => ?_,
        crediting.real game stored real]
      obtain ⟨game', stored', -, key', -, after, takes⟩ := games entry there
      obtain ⟨players, -, time⟩ := consistent.same game' stored' game stored (key'.trans same.symm)
      rw [players] at takes
      rw [time] at after
      exact affected ⟨List.mem_of_getElem? takes, after⟩
  · rw [credited.others _ fun entry there same => ?_, crediting.remake game stored remake]
    obtain ⟨game', stored', real, key', -⟩ := games entry there
    obtain ⟨-, duration, -⟩ := consistent.same game' stored' game stored (key'.trans same.symm)
    rw [Match.real, isRemake, duration] at real
    rw [Match.real, isRemake, real] at remake
    cases remake
  · rw [credited.others _ fun entry there same => ?_, crediting.absent key absent]
    obtain ⟨game', stored', -, key', -⟩ := games entry there
    exact absent game' stored' (key'.trans same.symm)
  · have valid := credited.valid
    have here := crediting.valid
    omega
  · intro platform different
    rw [credited.elsewhere platform different, crediting.elsewhere platform different]

/-- All players of a new game give credit. -/
theorem Crediting.all {before : Table (String × UInt64) (List Nat)}
    (consistent : Consistent (calls ++ [given]))
    (holds : HoldsGames (calls ++ [given]) tables.players tables.playerTl)
    (issued : Issued tables.players next) (counts : given.real = true) {puuids : List String}
    {pids : List Nat}
    (numbered : List.Forall₂ (fun puuid pid => tables.players.get puuid = some pid) puuids pids) :
    ∀ {done : List String} {found : Table (String × UInt64) (List Nat) × Nat},
      Crediting calls given before done found → (∀ puuid ∈ puuids, puuid ∈ given.puuids) →
        (done ++ puuids).Nodup →
          Crediting calls given before (done ++ puuids)
            (creditAll given.record.platform (tables.later given.tsMs) pids found) := by
  induction numbered with
  | nil =>
      intro done found crediting _ _
      rw [List.append_nil]
      exact crediting
  | @cons puuid pid puuids pids here rest ih =>
      intro done found crediting inside distinct
      have waiting : puuid ∉ done := by
        intro there
        exact List.disjoint_of_nodup_append distinct there List.mem_cons_self
      have step := crediting.step consistent holds issued counts
        (inside puuid List.mem_cons_self) here waiting
      rw [List.append_cons] at distinct ⊢
      exact ih step (fun other there => inside other (List.mem_cons_of_mem _ there)) distinct

/-- Each player of a match has the id of its place. -/
theorem Numbered.forall₂ {players : Table String Nat} {pids : List Nat}
    (numbered : Numbered given players pids) :
    List.Forall₂ (fun puuid pid => players.get puuid = some pid) given.puuids pids := by
  refine List.forall₂_iff_get.mpr ⟨numbered.length.symm, fun slot one two => ?_⟩
  rw [List.get_eq_getElem, List.get_eq_getElem, ← numbered.get (List.getElem?_eq_getElem one),
    List.getElem?_eq_getElem two]

/-- The record of a new game. -/
theorem Tracks.newProgress_eq {ram : Ram} {pids : List Nat} (tracks : Tracks calls ram tables)
    (consistent : Consistent calls) (numbered : Numbered given tables.players pids) (tsMs : Nat) :
    newProgress (tables.counts tsMs pids) =
      progressOf (given.puuids.map fun puuid => earlier calls puuid tsMs) := by
  rw [progressOf, List.map_map]
  congr 1
  apply List.ext_getElem
  · rw [Tables.counts, List.length_map, List.length_map, numbered.length]
  · intro slot one two
    rw [List.length_map] at two
    have inside : slot < pids.length := by rwa [numbered.length]
    have here := numbered.get (List.getElem?_eq_getElem two)
    rw [List.getElem?_eq_getElem inside] at here
    simp only [Tables.counts, List.getElem_map, Function.comp_apply]
    rw [tracks.length_timeline consistent here.symm]

end Crediting

/-- The calls before are consistent. -/
theorem Consistent.of_append {calls : List Match} {given : Match}
    (consistent : Consistent (calls ++ [given])) : Consistent calls where
  ten game inside := consistent.ten game (List.mem_append_left _ inside)
  distinct game inside := consistent.distinct game (List.mem_append_left _ inside)
  inRange game inside := consistent.inRange game (List.mem_append_left _ inside)
  same first one second two :=
    consistent.same first (List.mem_append_left _ one) second (List.mem_append_left _ two)
  apart first one second two :=
    consistent.apart first (List.mem_append_left _ one) second (List.mem_append_left _ two)
  platform first one second two :=
    consistent.platform first (List.mem_append_left _ one) second (List.mem_append_left _ two)

/-- A new game, before anyone has given credit. -/
theorem Tracks.crediting {calls : List Match} {given : Match} {ram : Ram} {tables : Tables}
    (tracks : Tracks calls ram tables) (consistent : Consistent (calls ++ [given]))
    (real : given.real = true) (new : ∀ game ∈ calls, game.key ≠ given.key) :
    Crediting calls given tables.progress []
      (tables.progress.insert given.key
          (progressOf (given.puuids.map fun puuid => earlier calls puuid given.tsMs)),
        (complete (given.puuids.map fun puuid => earlier calls puuid given.tsMs)).toNat) := by
  have absent := tracks.absent given.key new
  have ten : (given.puuids.map fun puuid => earlier calls puuid given.tsMs).length = 10 := by
    rw [List.length_map, consistent.ten given (by simp)]
  refine ⟨fun game inside kind => ?_, fun game inside kind => ?_, fun key elsewhere => ?_, ?_, ?_⟩
  · rcases List.mem_append.mp inside with inside | inside
    · rw [Table.get_insert_of_ne _ _ (new game inside), tracks.real game inside kind]
      rw [creditedCount_nil]
    · rw [List.mem_singleton] at inside
      rw [inside, Table.get_insert_self, creditedCount_nil]
  · rcases List.mem_append.mp inside with inside | inside
    · rw [Table.get_insert_of_ne _ _ (new game inside), tracks.remake game inside kind]
    · rw [List.mem_singleton] at inside
      rw [inside, real] at kind
      cases kind
  · rw [Table.get_insert_of_ne _ _ (elsewhere given (by simp)).symm]
    exact tracks.absent key fun game inside => elsewhere game (List.mem_append_left _ inside)
  · rw [validCount_insert_new absent, flagged_progressOf ten]
    simp [Match.key]
  · intro platform different
    rw [validCount_insert_new absent]
    simp [Match.key, different.symm]

/-- What all players of a new game leave is what the longer run calls for. -/
theorem creditedCount_all {calls : List Match} {given game : Match}
    (real : given.real = true) (new : ∀ game ∈ calls, game.key ≠ given.key) (puuid : String) :
    creditedCount calls given given.puuids game puuid =
      earlier (calls ++ [given]) puuid game.tsMs := by
  rw [creditedCount, earlier_append_new new, Match.counts, real]
  simp

section NewGame

variable {calls : List Match} {given : Match} {ram : Ram} {tables : Tables} {pids : List Nat}

/-- The rows of a new match are those of its players. -/
theorem Tracks.tracked_timeline (tracks : Tracks calls ram tables)
    (consistent : Consistent (calls ++ [given])) (real : given.real = true)
    (new : ∀ game ∈ calls, game.key ≠ given.key) (numbered : Numbered given tables.players pids) :
    HoldsGames (calls ++ [given]) tables.players
      (tables.tracked given.record.platform given.record.gameId given.tsMs pids).1.playerTl := by
  have before : HoldsGames calls tables.players tables.playerTl := tracks.timeline
  exact before.enter numbered tracks.issued consistent real new

/-- The later games of a new match are about to be credited. -/
theorem Tracks.tracked_crediting (tracks : Tracks calls ram tables)
    (consistent : Consistent (calls ++ [given])) (real : given.real = true)
    (new : ∀ game ∈ calls, game.key ≠ given.key) (numbered : Numbered given tables.players pids) :
    Crediting calls given tables.progress given.puuids
      ((tables.tracked given.record.platform given.record.gameId given.tsMs pids).1.progress,
        (tables.tracked given.record.platform given.record.gameId given.tsMs pids).2) := by
  have ten : (given.puuids.map fun puuid => earlier calls puuid given.tsMs).length = 10 := by
    rw [List.length_map, consistent.ten given (by simp)]
  have first := tracks.crediting consistent real new
  rw [← full_progressOf ten,
    ← tracks.newProgress_eq consistent.of_append numbered given.tsMs] at first
  have holds : HoldsGames (calls ++ [given])
      (tables.tracked given.record.platform given.record.gameId given.tsMs pids).1.players
      (tables.tracked given.record.platform given.record.gameId given.tsMs pids).1.playerTl :=
    tracks.tracked_timeline consistent real new numbered
  exact Crediting.all consistent holds tracks.issued real numbered.forall₂ first
    (fun _ inside => inside) (consistent.distinct given (by simp))

end NewGame

/-- The samples are added to what memory and tables had. -/
theorem withValid_samples (state : State) {platform : String} (newlyValid : Nat)
    (agree : (state.ram.validSamples.get platform).getD 0 =
      (state.working.validSamples.get platform).getD 0) (other : String) :
    ((state.withValid platform newlyValid).ram.validSamples.get other).getD 0 =
        (state.ram.validSamples.get other).getD 0 + (if other = platform then newlyValid else 0) ∧
      ((state.withValid platform newlyValid).working.validSamples.get other).getD 0 =
        (state.working.validSamples.get other).getD 0 +
          if other = platform then newlyValid else 0 := by
  unfold State.withValid
  split
  · next none => simp [none]
  · simp only [Ram.addValid, Table.get_insert]
    by_cases same : other = platform
    · subst same
      rw [← agree]
      cases state.ram.validSamples.get other with
      | none => simp
      | some count => simp
    · simp [same]

/-- Valid samples do not concern progress. -/
theorem withValid_alike (state : State) (platform : String) (newlyValid : Nat) :
    (state.withValid platform newlyValid).ram.players = state.ram.players ∧
      (state.withValid platform newlyValid).ram.nextPlayerId = state.ram.nextPlayerId ∧
      (state.withValid platform newlyValid).working.players = state.working.players ∧
      (state.withValid platform newlyValid).working.playerTl = state.working.playerTl ∧
      (state.withValid platform newlyValid).working.progress = state.working.progress := by
  unfold State.withValid
  split
  · exact ⟨rfl, rfl, rfl, rfl, rfl⟩
  · exact ⟨rfl, rfl, rfl, rfl, rfl⟩

/-- **A new game** keeps the progress of everybody exact. -/
theorem Tracks.withMatch {calls : List Match} {given : Match} {state : State} {pids : List Nat}
    (tracks : Tracks calls state.ram state.working) (consistent : Consistent (calls ++ [given]))
    (real : given.real = true) (new : ∀ game ∈ calls, game.key ≠ given.key)
    (numbered : Numbered given state.working.players pids) :
    Tracks (calls ++ [given])
      (state.withMatch given.record.platform given.record.gameId given.tsMs pids).ram
      (state.withMatch given.record.platform given.record.gameId given.tsMs pids).working := by
  have holds := tracks.tracked_timeline consistent real new numbered
  have credited := tracks.tracked_crediting consistent real new numbered
  unfold State.withMatch
  obtain ⟨players, next, rows, timeline, progress⟩ := withValid_alike
    { state with
      working := (state.working.tracked given.record.platform given.record.gameId
        given.tsMs pids).1 }
    given.record.platform
    (state.working.tracked given.record.platform given.record.gameId given.tsMs pids).2
  have agree : (state.ram.validSamples.get given.record.platform).getD 0 =
      (state.working.validSamples.get given.record.platform).getD 0 := by
    rw [tracks.ramValid, tracks.valid]
  have samples := withValid_samples
    { state with
      working := (state.working.tracked given.record.platform given.record.gameId
        given.tsMs pids).1 }
    (state.working.tracked given.record.platform given.record.gameId given.tsMs pids).2 agree
  refine ⟨?_, ?_, ?_, ?_, ?_, ?_, ?_, ?_, ?_⟩
  · rw [players, rows]
    exact tracks.players
  · rw [rows, next]
    exact tracks.issued
  · rw [rows]
    intro game inside puuid plays
    rcases List.mem_append.mp inside with inside | inside
    · exact tracks.known game inside puuid plays
    · rw [List.mem_singleton] at inside
      exact numbered.known (inside ▸ plays)
  · rw [rows, timeline]
    exact holds
  · rw [progress]
    intro game inside kind
    rw [credited.real game inside kind]
    congr 2
    apply List.map_congr_left
    intro puuid _
    exact creditedCount_all real new puuid
  · rw [progress]
    exact credited.remake
  · rw [progress]
    exact credited.absent
  · intro platform
    rw [(samples platform).1, progress, tracks.ramValid]
    by_cases same : platform = given.record.platform
    · rw [if_pos same, same]
      exact credited.valid.symm
    · rw [if_neg same]
      exact (credited.elsewhere platform same).symm
  · intro platform
    rw [(samples platform).2, progress]
    by_cases same : platform = given.record.platform
    · rw [if_pos same, same]
      rw [credited.valid, ← tracks.valid]
      rfl
    · rw [if_neg same, credited.elsewhere platform same, ← tracks.valid]
      rfl

/-! ## One call -/

/-- A sighting does not concern progress. -/
theorem sight_alike (tsMs : Nat) (growthPaused : Bool) (found : Ram × Tables) (pid : Nat) :
    Alike found.1 found.2 (sight tsMs growthPaused found pid).1
      (sight tsMs growthPaused found pid).2 := by
  unfold sight
  split
  · exact .refl _ _
  · simp only
    split
    · exact ⟨rfl, rfl, rfl, rfl, rfl, rfl, rfl⟩
    · exact ⟨rfl, rfl, rfl, rfl, rfl, rfl, rfl⟩

/-- Sightings do not concern progress. -/
theorem sightings_alike (tsMs : Nat) (growthPaused : Bool) (pids : List Nat)
    (found : Ram × Tables) :
    Alike found.1 found.2 (pids.foldl (sight tsMs growthPaused) found).1
      (pids.foldl (sight tsMs growthPaused) found).2 := by
  induction pids generalizing found with
  | nil => exact .refl _ _
  | cons pid pids ih => exact (sight_alike tsMs growthPaused found pid).trans (ih _)

/-- The ids that the transaction uses are those of its players. -/
theorem numbered_pids {given : Match} {ram : Ram} {players : Table String Nat}
    (same : ram.players = players) :
    Numbered given (addPlayers players (ram.assign given.puuids).2.2) (given.pids ram) where
  length := length_assign ram given.puuids
  get := by
    intro slot puuid takes
    rw [← same, ← players_assign]
    exact get_assign takes

/-- **The transaction of one call** keeps the progress of everybody exact. -/
theorem Tracks.committed {calls : List Match} {given : Match} {state : State}
    (tracks : Tracks calls state.ram state.tables) (consistent : Consistent (calls ++ [given])) :
    Tracks (calls ++ [given]) (given.committed state).ram (given.committed state).tables := by
  have entered : Tracks calls (given.entered state).ram (given.entered state).working :=
    tracks.withPlayers given.puuids
  have numbered : Numbered given (given.entered state).working.players (given.pids state.ram) :=
    numbered_pids tracks.players
  show Tracks (calls ++ [given]) (given.inTxn state).ram (given.inTxn state).working
  unfold Match.inTxn Match.effects
  by_cases stored : (state.tables.progress.get given.key).isSome
  · obtain ⟨game, inside, same⟩ := (tracks.stored_iff given.key).mp stored
    rw [stored, Bool.not_true, Bool.and_false, if_neg Bool.false_ne_true,
      if_neg Bool.false_ne_true]
    exact entered.again consistent inside same
  · have new : ∀ game ∈ calls, game.key ≠ given.key := fun game inside same =>
      stored ((tracks.stored_iff given.key).mpr ⟨game, inside, same⟩)
    rw [Bool.not_eq_true] at stored
    rw [stored, Bool.not_false, Bool.and_true]
    by_cases remake : isRemake given.record = true
    · rw [if_pos remake]
      exact entered.marker new (by rw [Match.real, remake]; rfl) fun _ inside =>
        numbered.known inside
    · rw [if_neg remake, if_pos rfl]
      have alike := sightings_alike given.tsMs given.growthPaused (given.pids state.ram)
        ((given.entered state).ram, (given.entered state).working)
      have rows : (given.sighted (given.pids state.ram) (given.entered state)).working.players =
          (given.entered state).working.players := alike.rows
      have real : given.real = true := by
        rw [Bool.not_eq_true] at remake
        rw [Match.real, remake]
        rfl
      exact Tracks.withMatch (entered.congr alike) consistent real new (rows ▸ numbered)

end LolCrawler.Store
