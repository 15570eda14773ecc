import Mathlib.Order.Minimal
import LolCrawler.Store.Runs

/-! # Orders of storing

A player's timeline spans all platforms, but a match gives credit on its own platform
only. As long as every player stays on one platform, the order in which matches are
stored makes no difference. Otherwise there are two orders that disagree on a slot: one
that stores a player's first game on some platform after an earlier game elsewhere, and
one that stores that platform first.
-/

namespace LolCrawler.Store

open Foundation Segment

variable (codecs : Codecs)

/-- A set of matches, each with the clock of its call. -/
structure MatchSet (calls : List (Match × Clock)) : Prop where
  keys : (calls.map fun call => call.1.key).Nodup
  ten : ∀ call ∈ calls, call.1.puuids.length = 10
  distinct : ∀ call ∈ calls, call.1.puuids.Nodup
  inRange : ∀ call ∈ calls, call.1.tsMs + 1 < 2 ^ 64
  apart : ∀ first ∈ calls, ∀ second ∈ calls, ∀ puuid ∈ first.1.puuids, puuid ∈ second.1.puuids →
    first.1.key ≠ second.1.key → first.1.tsMs ≠ second.1.tsMs

/-- Every player's games are on one platform, remakes apart. -/
def OnePlatform (calls : List (Match × Clock)) : Prop :=
  ∀ first ∈ calls, ∀ second ∈ calls, first.1.real = true → second.1.real = true →
    ∀ puuid ∈ first.1.puuids, puuid ∈ second.1.puuids →
      first.1.record.platform = second.1.record.platform

/-- The progress records and the sample counts are the same. -/
structure SameProgress (first second : State) : Prop where
  progress : ∀ key, first.tables.progress.get key = second.tables.progress.get key
  ramValid : ∀ platform,
    (first.ram.validSamples.get platform).getD 0 = (second.ram.validSamples.get platform).getD 0
  valid : ∀ platform,
    (first.tables.validSamples.get platform).getD 0 =
      (second.tables.validSamples.get platform).getD 0

section Sets

variable {calls other : List (Match × Clock)}

/-- Some of the calls of a set. -/
theorem MatchSet.subset (set : MatchSet calls) (keys : (other.map fun call => call.1.key).Nodup)
    (inside : ∀ call ∈ other, call ∈ calls) : MatchSet other where
  keys := keys
  ten call there := set.ten call (inside call there)
  distinct call there := set.distinct call (inside call there)
  inRange call there := set.inRange call (inside call there)
  apart first one second two := set.apart first (inside first one) second (inside second two)

/-- A set does not depend on the order. -/
theorem MatchSet.perm (set : MatchSet calls) (perm : other.Perm calls) : MatchSet other :=
  set.subset ((perm.map _).nodup_iff.mpr set.keys) fun _ there => perm.mem_iff.mp there

/-- The calls of a set that are kept. -/
theorem MatchSet.filter (set : MatchSet calls) (kept : Match × Clock → Bool) :
    MatchSet (calls.filter kept) :=
  set.subset (set.keys.sublist (List.filter_sublist.map _)) fun _ there =>
    List.mem_of_mem_filter there

/-- A set for one platform is consistent. -/
theorem MatchSet.consistent (set : MatchSet calls) (one : OnePlatform calls) :
    Consistent (calls.map Prod.fst) where
  ten := by
    simp only [List.forall_mem_map]
    exact set.ten
  distinct := by
    simp only [List.forall_mem_map]
    exact set.distinct
  inRange := by
    simp only [List.forall_mem_map]
    exact set.inRange
  same := by
    simp only [List.forall_mem_map]
    intro first one second two same
    rw [List.inj_on_of_nodup_map set.keys one two same]
    exact ⟨rfl, rfl, rfl⟩
  apart := by
    simp only [List.forall_mem_map]
    exact set.apart
  platform := by
    simp only [List.forall_mem_map]
    exact one

/-- The calls for a platform are for one platform. -/
theorem onePlatform_filter (calls : List (Match × Clock)) (platform : String) :
    OnePlatform (calls.filter fun call => call.1.record.platform = platform) := by
  intro first one second two _ _ _ _ _
  have here := List.of_mem_filter one
  have there := List.of_mem_filter two
  rw [of_decide_eq_true here, of_decide_eq_true there]

end Sets

/-! ## One platform -/

/-- What is earlier does not depend on the order. -/
theorem earlier_perm {calls other : List Match} (perm : calls.Perm other) (puuid : String)
    (tsMs : Nat) : earlier calls puuid tsMs = earlier other puuid tsMs :=
  (((perm.filter _).map _).dedup).length_eq

/-- Two orders of the same matches lead to the same progress. -/
theorem Tracks.sameProgress {calls other : List Match} {first second : State}
    (one : Tracks calls first.ram first.tables) (two : Tracks other second.ram second.tables)
    (perm : calls.Perm other) : SameProgress first second := by
  have progress : ∀ key, first.tables.progress.get key = second.tables.progress.get key := by
    intro key
    by_cases stored : ∃ given ∈ calls, given.key = key
    · obtain ⟨given, inside, rfl⟩ := stored
      have inside' := perm.mem_iff.mp inside
      cases kind : given.real with
      | true =>
          rw [one.real given inside kind, two.real given inside' kind]
          simp only [earlier_perm perm]
      | false => rw [one.remake given inside kind, two.remake given inside' kind]
    · simp only [not_exists, not_and] at stored
      rw [one.absent key stored,
        two.absent key fun given inside => stored given (perm.mem_iff.mpr inside)]
  have same : ∀ platform, validCount first.tables.progress platform =
      validCount second.tables.progress platform := fun platform => Table.count_congr progress _
  refine ⟨progress, fun platform => ?_, fun platform => ?_⟩
  · rw [one.ramValid, two.ramValid, same]
  · rw [one.valid, two.valid, same]

/-! ## What a call does to other records -/

/-- Records stay, and their slots never go down. -/
def Grows (before after : Table (String × UInt64) (List Nat)) : Prop :=
  ∀ key progress, before.get key = some progress → ∃ later, after.get key = some later ∧
    ∀ slot, progress.getD slot 0 ≤ later.getD slot 0

/-- Nothing has grown. -/
theorem Grows.refl (records : Table (String × UInt64) (List Nat)) : Grows records records :=
  fun _ progress here => ⟨progress, here, fun _ => Nat.le_refl _⟩

/-- Two changes, one after the other, that only grow. -/
theorem Grows.trans {first second third : Table (String × UInt64) (List Nat)}
    (one : Grows first second) (two : Grows second third) : Grows first third := by
  intro key progress here
  obtain ⟨between, there, up⟩ := one key progress here
  obtain ⟨later, last, up'⟩ := two key between there
  exact ⟨later, last, fun slot => Nat.le_trans (up slot) (up' slot)⟩

/-- A slot that is bumped grows. -/
theorem bumpSlot_grows {progress bumped : List Nat} {slot : Nat} {completes : Bool}
    (bump : bumpSlot progress slot = some (bumped, completes)) (index : Nat) :
    progress.getD index 0 ≤ bumped.getD index 0 := by
  have set_grows : ∀ {values : List Nat} {position value : Nat}, values.getD position 0 ≤ value →
      values.getD index 0 ≤ (values.set position value).getD index 0 := by
    intro values position value up
    simp only [List.getD_eq_getElem?_getD, List.getElem?_set] at up ⊢
    split
    · next same =>
        subst same
        split
        · exact up
        · next outside => simp [List.getElem?_eq_none (Nat.not_lt.mp outside)]
    · exact Nat.le_refl _
  unfold bumpSlot at bump
  split at bump
  · cases bump
  · simp only at bump
    have first := set_grows (Nat.le_succ (progress.getD slot 0))
    split at bump
    · next completed =>
        cases bump
        simp only [Bool.and_eq_true, decide_eq_true_eq] at completed
        exact Nat.le_trans first (set_grows (by rw [completed.1]; omega))
    · cases bump
      exact first

/-- A record whose slots go up has grown. -/
theorem insert_grows {records : Table (String × UInt64) (List Nat)} {key : String × UInt64}
    {old new : List Nat} (here : records.get key = some old)
    (up : ∀ slot, old.getD slot 0 ≤ new.getD slot 0) : Grows records (records.insert key new) := by
  intro other progress there
  rw [Table.get_insert]
  split
  · next same =>
      rw [same, here, Option.some.injEq] at there
      exact ⟨new, rfl, there ▸ up⟩
  · exact ⟨progress, there, fun _ => Nat.le_refl _⟩

/-- A new record is a growth. -/
theorem insert_new_grows {records : Table (String × UInt64) (List Nat)} {key : String × UInt64}
    (absent : records.get key = none) (new : List Nat) :
    Grows records (records.insert key new) := by
  intro other progress there
  have different : other ≠ key := by
    rintro rfl
    rw [absent] at there
    cases there
  exact ⟨progress, by rw [Table.get_insert_of_ne _ _ different, there], fun _ => Nat.le_refl _⟩

/-- Credits only grow, and only on their platform. -/
theorem credit_grows (platform : String) (later : List TlEntry)
    (found : Table (String × UInt64) (List Nat) × Nat) :
    Grows found.1 (credit platform later found).1 ∧
      ∀ key, key.1 ≠ platform → (credit platform later found).1.get key = found.1.get key := by
  induction later generalizing found with
  | nil => exact ⟨.refl _, fun _ _ => rfl⟩
  | cons entry later ih =>
      obtain ⟨time, gameId, slot⟩ := entry
      cases counted : slots found.1 platform gameId with
      | none =>
          rw [credit_skip counted]
          exact ih found
      | some progress =>
          cases bumped : bumpSlot progress slot with
          | none =>
              rw [credit_full counted bumped]
              exact ⟨.refl _, fun _ _ => rfl⟩
          | some result =>
              obtain ⟨new, completes⟩ := result
              rw [credit_bump counted bumped]
              have here : found.1.get (platform, gameId) = some progress :=
                (Option.filter_eq_some_iff.mp counted).1
              obtain ⟨grows, others⟩ :=
                ih (found.1.insert (platform, gameId) new, found.2 + completes.toNat)
              refine ⟨(insert_grows here (bumpSlot_grows bumped)).trans grows, fun key apart => ?_⟩
              rw [others key apart, Table.get_insert_of_ne]
              rintro rfl
              exact apart rfl

/-- Credits of several players only grow, and only on their platform. -/
theorem creditAll_grows (platform : String) (later : Nat → List TlEntry) (pids : List Nat)
    (found : Table (String × UInt64) (List Nat) × Nat) :
    Grows found.1 (creditAll platform later pids found).1 ∧
      ∀ key, key.1 ≠ platform →
        (creditAll platform later pids found).1.get key = found.1.get key := by
  induction pids generalizing found with
  | nil => exact ⟨.refl _, fun _ _ => rfl⟩
  | cons pid pids ih =>
      obtain ⟨first, others⟩ := credit_grows platform (later pid) found
      obtain ⟨rest, others'⟩ := ih (credit platform (later pid) found)
      exact ⟨first.trans rest, fun key apart => (others' key apart).trans (others key apart)⟩

/-- A new game enters with its record, and no record loses anything. -/
theorem tracked_grows (tables : Tables) (platform : String) (gameId : UInt64) (tsMs : Nat)
    (pids : List Nat) :
    Grows (tables.progress.insert (platform, gameId) (newProgress (tables.counts tsMs pids)))
        (tables.tracked platform gameId tsMs pids).1.progress ∧
      ∀ key, key.1 ≠ platform →
        (tables.tracked platform gameId tsMs pids).1.progress.get key =
          tables.progress.get key := by
  obtain ⟨grows, others⟩ := creditAll_grows platform
    (Tables.later
      { tables with
        progress :=
          tables.progress.insert (platform, gameId) (newProgress (tables.counts tsMs pids))
        playerTl := enterTimeline gameId tsMs 0 pids tables.playerTl } tsMs)
    pids (tables.progress.insert (platform, gameId) (newProgress (tables.counts tsMs pids)),
      (full (newProgress (tables.counts tsMs pids))).toNat)
  refine ⟨grows, fun key apart => (others key apart).trans ?_⟩
  apply Table.get_insert_of_ne
  rintro rfl
  exact apart rfl

/-- The state within the transaction of a match that is new and no remake. -/
theorem inTxn_new {given : Match} {state : State} (real : given.real = true)
    (new : state.tables.progress.get given.key = none) :
    given.inTxn state = (given.sighted (given.pids state.ram) (given.entered state)).withMatch
      given.record.platform given.record.gameId given.tsMs (given.pids state.ram) := by
  have kind : isRemake given.record = false := by simpa [Match.real] using real
  rw [Match.inTxn, Match.effects, new, kind]
  rfl

/-- The tables that a new match finds once its players have been sighted. -/
def Match.before (given : Match) (state : State) : Tables :=
  (given.sighted (given.pids state.ram) (given.entered state)).working

/-- The progress is not touched before a match is entered. -/
theorem before_progress (given : Match) (state : State) :
    (given.before state).progress = state.tables.progress :=
  (sightings_alike given.tsMs given.growthPaused (given.pids state.ram)
    ((given.entered state).ram, (given.entered state).working)).progress

/-- A match that is new and no remake is tracked and credited. -/
theorem committed_new {given : Match} {state : State} (real : given.real = true)
    (new : state.tables.progress.get given.key = none) :
    (given.committed state).tables.progress =
      ((given.before state).tracked given.record.platform given.record.gameId given.tsMs
        (given.pids state.ram)).1.progress := by
  show (given.inTxn state).working.progress = _
  rw [inTxn_new real new, State.withMatch]
  exact (withValid_alike _ _ _).2.2.2.2

/-- A match grows the progress of its own platform only. -/
theorem committed_grows (given : Match) (state : State) :
    Grows state.tables.progress (given.committed state).tables.progress ∧
      ∀ key, key.1 ≠ given.record.platform →
        (given.committed state).tables.progress.get key = state.tables.progress.get key := by
  cases found : state.tables.progress.get given.key with
  | some progress =>
      have same : (given.committed state).tables.progress = state.tables.progress := by
        show (given.inTxn state).working.progress = _
        simp [Match.inTxn, Match.effects, found, Match.entered, State.withPlayers]
      rw [same]
      exact ⟨.refl _, fun _ _ => rfl⟩
  | none =>
      cases kind : given.real with
      | false =>
          have remake : isRemake given.record = true := by simpa [Match.real] using kind
          have marked : (given.committed state).tables.progress =
              state.tables.progress.insert given.key [] := by
            show (given.inTxn state).working.progress = _
            simp [Match.inTxn, Match.effects, found, remake, Match.entered, State.withPlayers]
          rw [marked]
          refine ⟨insert_new_grows found _, fun key apart => ?_⟩
          apply Table.get_insert_of_ne
          rintro rfl
          exact apart rfl
      | true =>
          obtain ⟨grows, others⟩ := tracked_grows (given.before state) given.record.platform
            given.record.gameId given.tsMs (given.pids state.ram)
          rw [before_progress] at grows others
          rw [committed_new kind found]
          exact ⟨(insert_new_grows found _).trans grows, others⟩

/-- The progress after a call is that of the committed match. -/
theorem storeOne_progress (state : State) (call : Match × Clock) :
    (storeOne codecs state call).tables.progress = (call.1.committed state).tables.progress :=
  (storeOne_aside codecs state call).alike.progress

/-- No call takes anything from a record, and a call on another platform leaves it alone. -/
theorem storeRest_grows (calls : List (Match × Clock)) (state : State) :
    Grows state.tables.progress (calls.foldl (storeOne codecs) state).tables.progress ∧
      ∀ key, (∀ call ∈ calls, key.1 ≠ call.1.record.platform) →
        (calls.foldl (storeOne codecs) state).tables.progress.get key =
          state.tables.progress.get key := by
  induction calls generalizing state with
  | nil => exact ⟨.refl _, fun _ _ => rfl⟩
  | cons call calls ih =>
      obtain ⟨grows, others⟩ := committed_grows call.1 state
      obtain ⟨grows', others'⟩ := ih (storeOne codecs state call)
      rw [storeOne_progress] at grows' others'
      refine ⟨grows.trans grows', fun key apart => ?_⟩
      rw [List.foldl_cons, others' key fun other there =>
        apart other (List.mem_cons_of_mem _ there)]
      exact others key (apart call List.mem_cons_self)

/-! ## Two orders that disagree -/

section Apart

variable {calls : List (Match × Clock)}

/-- A player's games, and none of them a remake. -/
def GameOf (calls : List (Match × Clock)) (puuid : String) (call : Match × Clock) : Prop :=
  call ∈ calls ∧ call.1.real = true ∧ puuid ∈ call.1.puuids

/-- Of some calls one is the earliest. -/
theorem exists_earliest {P : Match × Clock → Prop} (some : ∃ call, P call) :
    ∃ call, P call ∧ ∀ other, P other → call.1.tsMs ≤ other.1.tsMs := by
  obtain ⟨call, here, least⟩ := exists_minimalFor_of_wellFoundedLT P (fun call => call.1.tsMs) some
  refine ⟨call, here, fun other there => ?_⟩
  rcases Nat.le_total call.1.tsMs other.1.tsMs with below | above
  · exact below
  · exact least there above

/-- If a player's games are not all on one platform, one of them is the player's first on its
platform and follows a game elsewhere. -/
theorem exists_moved (set : MatchSet calls) {puuid : String} {first second : Match × Clock}
    (one : GameOf calls puuid first) (two : GameOf calls puuid second)
    (apart : first.1.record.platform ≠ second.1.record.platform) :
    ∃ home away, GameOf calls puuid home ∧ GameOf calls puuid away ∧
      home.1.record.platform ≠ away.1.record.platform ∧ home.1.tsMs < away.1.tsMs ∧
      ∀ other, GameOf calls puuid other → other.1.record.platform = away.1.record.platform →
        away.1.tsMs ≤ other.1.tsMs := by
  obtain ⟨home, there, least⟩ := exists_earliest ⟨first, one⟩
  have elsewhere : ∃ call, GameOf calls puuid call ∧
      call.1.record.platform ≠ home.1.record.platform := by
    by_cases same : first.1.record.platform = home.1.record.platform
    · exact ⟨second, two, fun same' => apart (same.trans same'.symm)⟩
    · exact ⟨first, one, same⟩
  obtain ⟨away, ⟨here, moved⟩, least'⟩ := exists_earliest elsewhere
  refine ⟨home, away, there, here, moved.symm, ?_, fun other game same => ?_⟩
  · apply Nat.lt_of_le_of_ne (least away here)
    apply set.apart home there.1 away here.1 puuid there.2.2 here.2.2
    intro same
    exact moved (congrArg Prod.fst same).symm
  · exact least' other ⟨game, same ▸ moved⟩

/-- Two calls can be brought to the front. -/
theorem perm_two_first {first second : Match × Clock} (one : first ∈ calls) (two : second ∈ calls)
    (different : second ≠ first) : ∃ rest, (first :: second :: rest).Perm calls := by
  obtain ⟨left, right, rfl⟩ := List.append_of_mem one
  have there : second ∈ left ++ right := by
    simpa [different] using two
  obtain ⟨left', right', split⟩ := List.append_of_mem there
  refine ⟨left' ++ right', ?_⟩
  have inner : (second :: (left' ++ right')).Perm (left ++ right) := by
    rw [split]
    exact List.perm_middle.symm
  exact (inner.cons first).trans List.perm_middle.symm

/-- The slot of a player's first game on a platform, if that platform is stored first. -/
theorem platform_first (set : MatchSet calls) (platforms : List String) {puuid : String}
    {away : Match × Clock} {slot : Nat} (game : GameOf calls puuid away)
    (takes : away.1.puuids[slot]? = some puuid)
    (least : ∀ other, GameOf calls puuid other →
      other.1.record.platform = away.1.record.platform → away.1.tsMs ≤ other.1.tsMs) :
    ∃ order progress, order.Perm calls ∧
      (storeAll codecs platforms order).tables.progress.get away.1.key = some progress ∧
      progress.getD slot 0 = 0 := by
  obtain ⟨there, real, plays⟩ := game
  let onIt : Match × Clock → Bool := fun call => call.1.record.platform = away.1.record.platform
  have subset := set.filter onIt
  have consistent := subset.consistent (onePlatform_filter calls _)
  have inside : away.1 ∈ (calls.filter onIt).map Prod.fst :=
    List.mem_map_of_mem (List.mem_filter.mpr ⟨there, decide_eq_true rfl⟩)
  have alone := (tracks_storeAll codecs platforms _ consistent).real away.1 inside real
  refine ⟨calls.filter onIt ++ calls.filter fun call => !onIt call,
    progressOf (away.1.puuids.map fun other =>
      earlier ((calls.filter onIt).map Prod.fst) other away.1.tsMs),
    List.filter_append_perm onIt calls, ?_, ?_⟩
  · rw [storeAll, List.foldl_append, (storeRest_grows codecs _ _).2]
    · exact alone
    · intro call elsewhere same
      have different := List.of_mem_filter elsewhere
      simp [onIt, ← same, Match.key] at different
  · have none : earlier ((calls.filter onIt).map Prod.fst) puuid away.1.tsMs = 0 := by
      rw [earlier, List.length_eq_zero_iff, List.dedup_eq_nil, List.map_eq_nil_iff,
        List.filter_eq_nil_iff]
      intro given from' counts
      obtain ⟨call, kept, rfl⟩ := List.mem_map.mp from'
      obtain ⟨member, same⟩ := List.mem_filter.mp kept
      obtain ⟨kind, plays', before⟩ := Match.counts_iff.mp counts
      have after := least call ⟨member, kind, plays'⟩ (of_decide_eq_true same)
      omega
    have bound := (List.getElem?_eq_some_iff.mp takes).1
    rw [set.ten away there] at bound
    rw [progressOf_getD (by rw [List.length_map, set.ten away there]) bound]
    simp [List.getD_eq_getElem?_getD, takes, none]

/-- The record with which a new game enters. -/
theorem Tracks.entry_eq {games : List Match} {state : State}
    (tracks : Tracks games state.ram state.tables) (consistent : Consistent games) {given : Match} :
    newProgress ((given.before state).counts given.tsMs (given.pids state.ram)) =
      progressOf (given.puuids.map fun puuid => earlier games puuid given.tsMs) := by
  have alike := sightings_alike given.tsMs given.growthPaused (given.pids state.ram)
    ((given.entered state).ram, (given.entered state).working)
  have numbered : Numbered given (given.before state).players (given.pids state.ram) := by
    rw [show (given.before state).players = _ from alike.rows]
    exact numbered_pids tracks.players
  exact ((tracks.withPlayers given.puuids).congr alike).newProgress_eq consistent
    numbered given.tsMs

/-- The slot of a game that is stored right after an earlier one. -/
theorem earlier_first (set : MatchSet calls) (platforms : List String) {puuid : String}
    {home away : Match × Clock} {slot : Nat} (one : GameOf calls puuid home)
    (two : GameOf calls puuid away) (takes : away.1.puuids[slot]? = some puuid)
    (different : home.1.record.platform ≠ away.1.record.platform)
    (before : home.1.tsMs < away.1.tsMs) :
    ∃ order progress, order.Perm calls ∧
      (storeAll codecs platforms order).tables.progress.get away.1.key = some progress ∧
      1 ≤ progress.getD slot 0 := by
  obtain ⟨there, real, plays⟩ := one
  obtain ⟨there', real', -⟩ := two
  have keys : home.1.key ≠ away.1.key := fun same => different (congrArg Prod.fst same)
  obtain ⟨rest, perm⟩ := perm_two_first there there' (fun same => keys (by rw [same]))
  have alone : Consistent [home.1] := by
    have subset : MatchSet [home] :=
      set.subset (List.nodup_singleton _) fun call inside => List.mem_singleton.mp inside ▸ there
    apply subset.consistent
    intro first inside second inside' _ _ _ _ _
    rw [List.mem_singleton.mp inside, List.mem_singleton.mp inside']
  have tracks : Tracks [home.1] _ _ := tracks_storeAll codecs platforms [home] alone
  have new := tracks.absent away.1.key fun given inside => List.mem_singleton.mp inside ▸ keys
  have grows := (tracked_grows (away.1.before (storeAll codecs platforms [home]))
    away.1.record.platform away.1.record.gameId away.1.tsMs
    (away.1.pids (storeAll codecs platforms [home]).ram)).1
  rw [tracks.entry_eq alone, ← committed_new real' new, ← storeOne_progress codecs] at grows
  have all := grows.trans
    (storeRest_grows codecs rest (storeOne codecs (storeAll codecs platforms [home]) away)).1
  obtain ⟨progress, here, up⟩ := all away.1.key _ (Table.get_insert_self _ _ _)
  refine ⟨home :: away :: rest, progress, perm, here, Nat.le_trans ?_ (up slot)⟩
  have counted : earlier [home.1] puuid away.1.tsMs = 1 := by
    have counts : home.1.counts puuid away.1.tsMs = true :=
      Match.counts_iff.mpr ⟨real, plays, before⟩
    rw [earlier, List.filter_cons_of_pos counts]
    rfl
  have bound := (List.getElem?_eq_some_iff.mp takes).1
  rw [set.ten away there'] at bound
  rw [progressOf_getD (by rw [List.length_map, set.ten away there']) bound]
  simp [List.getD_eq_getElem?_getD, takes, counted, historyRequired]

end Apart

/-- **Orders of storing.** All orders of a set of matches leave the same progress if and only
if every player's games are on one platform. -/
theorem orders_agree_iff (platforms : List String) (calls : List (Match × Clock))
    (set : MatchSet calls) :
    (∀ first second : List (Match × Clock), first.Perm calls → second.Perm calls →
        SameProgress (storeAll codecs platforms first) (storeAll codecs platforms second)) ↔
      OnePlatform calls := by
  constructor
  · intro agree first one second two real real' puuid plays plays'
    by_contra apart
    obtain ⟨home, away, there, here, different, before, least⟩ :=
      exists_moved set ⟨one, real, plays⟩ ⟨two, real', plays'⟩ apart
    obtain ⟨slot, takes⟩ := List.mem_iff_getElem?.mp here.2.2
    obtain ⟨order, progress, perm, stored, zero⟩ :=
      platform_first codecs set platforms here takes least
    obtain ⟨order', progress', perm', stored', counted⟩ :=
      earlier_first codecs set platforms there here takes different before
    have same := (agree order order' perm perm').progress away.1.key
    rw [stored, stored', Option.some.injEq] at same
    rw [← same] at counted
    omega
  · intro one first second perm perm'
    have tracks := tracks_storeAll codecs platforms first
      ((set.perm perm).consistent fun a here b there =>
        one a (perm.mem_iff.mp here) b (perm.mem_iff.mp there))
    have tracks' := tracks_storeAll codecs platforms second
      ((set.perm perm').consistent fun a here b there =>
        one a (perm'.mem_iff.mp here) b (perm'.mem_iff.mp there))
    exact tracks.sameProgress tracks' ((perm.trans perm'.symm).map Prod.fst)

/-- Two games of the same players, each on its own platform. -/
def movedCalls : List (Match × Clock) :=
  [(sampleMatch "EUW1" 1 1000 1800, sampleClock), (sampleMatch "NA1" 1 2000 1800, sampleClock)]

/-- The moved calls are a set. -/
theorem movedCalls_set : MatchSet movedCalls :=
  ⟨by decide, by decide, by decide, by decide, by decide⟩

/-- Stored in order of time, the later game has an earlier one in each slot. Stored first, it
has none. -/
theorem orders_disagree_across_platforms :
    MatchSet movedCalls ∧
      ¬ SameProgress (storeAll shortCodecs ["EUW1", "NA1"] movedCalls)
        (storeAll shortCodecs ["EUW1", "NA1"] movedCalls.reverse) := by
  refine ⟨movedCalls_set, fun same => ?_⟩
  have here : (storeAll shortCodecs ["EUW1", "NA1"] movedCalls).tables.progress.get ("NA1", 1) =
      some [1, 1, 1, 1, 1, 1, 1, 1, 1, 1, 0] := by decide +kernel
  have there : (storeAll shortCodecs ["EUW1", "NA1"] movedCalls.reverse).tables.progress.get
      ("NA1", 1) = some [0, 0, 0, 0, 0, 0, 0, 0, 0, 0, 0] := by decide +kernel
  have equal := same.progress ("NA1", 1)
  rw [here, there] at equal
  revert equal
  decide

/-- The orders of the moved calls agree if and only if these are for one platform. -/
theorem orders_agree_iff_moved :
    (∀ first second : List (Match × Clock), first.Perm movedCalls → second.Perm movedCalls →
        SameProgress (storeAll shortCodecs ["EUW1", "NA1"] first)
          (storeAll shortCodecs ["EUW1", "NA1"] second)) ↔
      OnePlatform movedCalls :=
  orders_agree_iff shortCodecs ["EUW1", "NA1"] movedCalls movedCalls_set

end LolCrawler.Store
