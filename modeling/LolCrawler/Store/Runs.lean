import LolCrawler.Store.Archive
import LolCrawler.Store.Progress

/-! # Runs of `store_match`

Calls of `store_match` on a store that was opened on an empty directory, in any
order and with any repetitions. What a call adds to the archive comes after its
transaction, and changes nothing of what is counted.
-/

namespace LolCrawler.Store

open Foundation Segment

/-- A store that has just been opened on an empty directory. -/
def opened (platforms : List String) : State := (openStore platforms ⟨.empty, .never⟩).2.state

variable (codecs : Codecs)

/-- The state after one call, whatever it returns. -/
def storeOne (state : State) (call : Match × Clock) : State :=
  (storeMatch codecs call.1.record call.1.puuids call.1.tsMs call.1.growthPaused call.2
    ⟨state, .never⟩).2.state

/-- The state after a run of calls. -/
def storeAll (platforms : List String) (calls : List (Match × Clock)) : State :=
  calls.foldl (storeOne codecs) (opened platforms)

/-- The transaction of a call commits, and the archive leaves its results alone. -/
theorem storeOne_aside (state : State) (call : Match × Clock) :
    Aside (call.1.committed state) (storeOne codecs state call) := by
  have paced := paced_steps.matchTxn memory_any call.1.record call.1.puuids call.1.tsMs
    call.1.growthPaused
  obtain ⟨⟨record, adopted⟩, between, run⟩ := paced.total state
  have committed : between = call.1.committed state := ((call.1.matchTxn_meets state).ok run).2
  have rest : LeavesAside (do
      archive codecs record call.1.puuids call.2
      pure adopted) := Leaves.bind (archive_aside codecs _ _ _) fun _ => .pure _
  rw [← committed]
  unfold storeOne storeMatch
  rw [Prog.bind_of_ok run]
  exact Leaves.state rest between .never

theorem Aside.alike {before after : State} (aside : Aside before after) :
    Alike before.ram before.tables after.ram after.tables := by
  obtain ⟨_, _, tables⟩ := aside.tables
  exact ⟨aside.players, aside.next, aside.samples, by rw [tables], by rw [tables], by rw [tables],
    by rw [tables]⟩

theorem tracks_opened (platforms : List String) :
    Tracks [] (opened platforms).ram (opened platforms).tables := by
  have samples : ∀ platform, ((opened platforms).ram.validSamples.get platform).getD 0 = 0 := by
    intro platform
    show ((platforms.foldl (fun totals platform => totals.insert platform 0) Table.empty).get
      platform).getD 0 = 0
    rw [Table.get_foldl_insert platforms fun _ => 0]
    split
    · rfl
    · rfl
  have unplayed : ∀ given, given ∉ ([] : List Match) := fun _ => List.not_mem_nil
  refine ⟨rfl, ⟨fun other _ => (by cases other), fun other => by cases other⟩,
    fun given inside => (unplayed given inside).elim, ?_,
    fun given inside => (unplayed given inside).elim,
    fun given inside => (unplayed given inside).elim, fun _ _ => rfl, samples, fun _ => rfl⟩
  intro pid tsMs gameId slot
  constructor
  · intro other
    cases other
  · intro played
    obtain ⟨given, inside, _⟩ := played
    exact (unplayed given inside).elim

theorem tracks_storeAll (platforms : List String) (calls : List (Match × Clock))
    (consistent : Consistent (calls.map Prod.fst)) :
    Tracks (calls.map Prod.fst) (storeAll codecs platforms calls).ram
      (storeAll codecs platforms calls).tables := by
  induction calls using List.reverseRecOn with
  | nil => exact tracks_opened platforms
  | append_singleton calls call ih =>
      rw [List.map_append, List.map_singleton] at consistent ⊢
      rw [storeAll, List.foldl_append, List.foldl_cons, List.foldl_nil]
      have before := ih consistent.of_append
      exact (before.committed consistent).congr (storeOne_aside codecs _ call).alike

/-- The progress that the games of a run call for. -/
structure ProgressExact (calls : List Match) (state : State) : Prop where
  /-- Each slot counts the player's earlier games, up to the number required. -/
  slots : ∀ given ∈ calls, given.real = true → ∃ progress,
    state.tables.progress.get given.key = some progress ∧ progress.length = 11 ∧
      (∀ (slot : Nat) puuid, given.puuids[slot]? = some puuid →
        progress[slot]? = some (min historyRequired (earlier calls puuid given.tsMs))) ∧
      (progress[10]? = some 1 ↔ ∀ slot < 10, progress[slot]? = some historyRequired) ∧
      (progress[10]? = some 0 ∨ progress[10]? = some 1)
  remakes : ∀ given ∈ calls, given.real = false → state.tables.progress.get given.key = some []
  /-- The samples in memory and in the tables are the records with a flag. -/
  samples : ∀ platform,
    (state.ram.validSamples.get platform).getD 0 = validCount state.tables.progress platform ∧
      (state.tables.validSamples.get platform).getD 0 = validCount state.tables.progress platform

theorem progressOf_flag {counts : List Nat} (ten : counts.length = 10) :
    ((progressOf counts)[10]? = some 1 ↔
        ∀ slot < 10, (progressOf counts)[slot]? = some historyRequired) ∧
      ((progressOf counts)[10]? = some 0 ∨ (progressOf counts)[10]? = some 1) := by
  have capped : (counts.map fun count => min historyRequired count).length = 10 := by
    rw [List.length_map, ten]
  have flag : (progressOf counts)[10]? = some (complete counts).toNat := by
    rw [progressOf_eq ten, List.getElem?_append_right (Nat.le_of_eq capped), capped]
    rfl
  have value : ∀ slot (inside : slot < counts.length), (progressOf counts)[slot]? =
      some (min historyRequired counts[slot]) := by
    intro slot inside
    rw [progressOf_eq ten, List.getElem?_append_left (by omega)]
    simp [inside]
  have all : complete counts = true ↔
      ∀ slot < 10, (progressOf counts)[slot]? = some historyRequired := by
    rw [complete, List.all_eq_true]
    constructor
    · intro enough slot inside
      rw [value slot (by omega)]
      have here := of_decide_eq_true (enough counts[slot] (List.getElem_mem _))
      rw [Nat.min_eq_left here]
    · intro full count inside
      obtain ⟨slot, bound, rfl⟩ := List.mem_iff_getElem.mp inside
      have here := full slot (by omega)
      rw [value slot bound, Option.some.injEq] at here
      exact decide_eq_true (by omega)
  rw [flag, ← all]
  cases complete counts with
  | true => exact ⟨by simp, .inr rfl⟩
  | false => exact ⟨by simp, .inl rfl⟩

/-- **Sample progress.** After every run of `store_match` calls, in any order and with any
repetitions, the progress records are those its games call for. -/
theorem storeAll_progressExact (platforms : List String) (calls : List (Match × Clock))
    (consistent : Consistent (calls.map Prod.fst)) :
    ProgressExact (calls.map Prod.fst) (storeAll codecs platforms calls) := by
  have tracks := tracks_storeAll codecs platforms calls consistent
  refine ⟨fun given inside real => ?_, tracks.remake, fun platform =>
    ⟨tracks.ramValid platform, tracks.valid platform⟩⟩
  have ten : (given.puuids.map fun puuid =>
      earlier (calls.map Prod.fst) puuid given.tsMs).length = 10 := by
    rw [List.length_map, consistent.ten given inside]
  refine ⟨_, tracks.real given inside real, progressOf_length ten, fun slot puuid takes => ?_,
    progressOf_flag ten⟩
  have bound := (List.getElem?_eq_some_iff.mp takes).1
  rw [progressOf_eq ten, List.getElem?_append_left (by simpa using bound)]
  simp [takes]

/-- A match of ten players. -/
def sampleMatch (platform : String) (gameId : UInt64) (tsMs : Nat) (durationS : UInt32) :
    Match where
  record :=
    { shortRecord with gameId := gameId, platform := platform, durationS := durationS }
  puuids := ["a", "b", "c", "d", "e", "f", "g", "h", "i", "j"]
  tsMs := tsMs
  growthPaused := false

def sampleClock : Clock := ⟨0, "2026-01-01", "2026-01-01"⟩

/-- An older game after a newer one, a remake, and the newer one again. -/
def sampleCalls : List (Match × Clock) :=
  [sampleMatch "EUW1" 2 2000 1800, sampleMatch "EUW1" 1 1000 1800, sampleMatch "EUW1" 3 500 100,
    sampleMatch "EUW1" 2 2000 1800].map fun given => (given, sampleClock)

theorem storeAll_progressExact_sample :
    ProgressExact (sampleCalls.map Prod.fst) (storeAll shortCodecs ["EUW1"] sampleCalls) :=
  storeAll_progressExact shortCodecs ["EUW1"] sampleCalls
    ⟨by decide, by decide, by decide, by decide, by decide, by decide⟩

end LolCrawler.Store
