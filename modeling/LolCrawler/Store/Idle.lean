import Mathlib.Order.Bounds.Basic
import LolCrawler.Store.Tasks

/-! # What a region reads of its frontier

When the next task is due, which tells how long an idle region may sleep, and how many tasks
are overdue, which tells the brake. Both are read transactions that walk the tasks of one
bucket in order.
-/

namespace LolCrawler.Store

open Foundation Prog

/-- The tasks of a bucket, earliest first. -/
def Tables.waiting (tables : Tables) (platform : String) (bucket : Nat) :
    List ((String × Nat × Nat × Nat) × FrontierTask) :=
  tables.tasks.filter fun entry => entry.1.1 = platform && entry.1.2.1 = bucket

/-- One by one, up to the cap. -/
def countTo {Entry : Type} (cap : Nat) : Nat → List Entry → Act Nat
  | n, [] => pure n
  | n, _ :: entries => do
      touch .frontier (.next .frontier)
      if cap ≤ n + 1 then pure (n + 1) else countTo cap (n + 1) entries

def frontierOverdueCount (platform : String) (nowMs graceMs cap : Nat) : Act Nat := do
  let cutoff := nowMs - graceMs
  touch .frontier .begin
  touch .frontier (.openTable .frontier)
  let overdue ← ask (.txn .frontier (.range .frontier)) fun state =>
    state.tables.due platform bucketPriority cutoff
  countTo cap 0 overdue

/-- The best due time so far, and of these buckets. -/
def earliest (platform : String) (best : Option Nat) : List Nat → Act (Option Nat)
  | [] => pure best
  | bucket :: buckets => do
      touch .frontier (.range .frontier)
      touch .frontier (.next .frontier)
      match ← gets fun state => (state.tables.waiting platform bucket).head? with
      | none => earliest platform best buckets
      | some ((_, _, due, _), _) =>
          earliest platform (some (best.elim due fun b => min b due)) buckets

def frontierNextDue (platform : String) : Act (Option Nat) := do
  touch .frontier .begin
  touch .frontier (.openTable .frontier)
  earliest platform none [bucketPriority, bucketOther]

/-! ## The overdue tasks -/

section Overdue

variable {state : State}

theorem countTo_ends {Entry : Type} {cap : Nat} (entries : List Entry) (n : Nat) (below : n < cap)
    (state : State) : Ends (countTo cap n entries) state (min cap (n + entries.length)) state := by
  induction entries generalizing n with
  | nil =>
      rw [List.length_nil, Nat.add_zero, Nat.min_eq_right (Nat.le_of_lt below)]
      rfl
  | cons entry entries ih =>
      refine Ends.bind rfl ?_
      by_cases full : cap ≤ n + 1
      · rw [if_pos full, List.length_cons, show min cap (n + (entries.length + 1)) = n + 1 by omega]
        rfl
      · rw [if_neg full, List.length_cons,
          show n + (entries.length + 1) = n + 1 + entries.length by omega]
        exact ih (n + 1) (by omega)

/-- **The count** is of the tasks that are due by the grace period, up to the cap. -/
theorem frontierOverdueCount_ends (platform : String) (nowMs graceMs : Nat) {cap : Nat}
    (positive : 0 < cap) (state : State) :
    Ends (frontierOverdueCount platform nowMs graceMs cap) state
      (min cap (state.tables.due platform bucketPriority (nowMs - graceMs)).length) state := by
  have counted := countTo_ends (state.tables.due platform bucketPriority (nowMs - graceMs)) 0
    positive state
  rw [Nat.zero_add] at counted
  exact Ends.bind rfl (Ends.bind rfl (Ends.bind rfl counted))

end Overdue

/-! ## The next task -/

/-- Some player waits on the platform, in this bucket, until this time. -/
def Tables.DueIn (tables : Tables) (platform : String) (bucket dueMs : Nat) : Prop :=
  ∃ pid, (tables.frontier.get (platform, bucket, dueMs, pid)).isSome

/-- The same, in any bucket. -/
def Tables.DueAt (tables : Tables) (platform : String) (dueMs : Nat) : Prop :=
  ∃ bucket, tables.DueIn platform bucket dueMs

/-- The least of the values, if there is one. -/
def Least (holds : Nat → Prop) : Option Nat → Prop
  | none => ∀ value, ¬ holds value
  | some least => IsLeast {value | holds value} least

theorem Least.congr {holds holds' : Nat → Prop} {found : Option Nat} (least : Least holds found)
    (same : ∀ value, holds value ↔ holds' value) : Least holds' found := by
  rw [show holds' = holds from funext fun value => propext (same value).symm]
  exact least

section Next

variable {tables : Tables} {platform : String}

theorem mem_waiting {bucket : Nat} {key : String × Nat × Nat × Nat} {task : FrontierTask} :
    (key, task) ∈ tables.waiting platform bucket ↔
      tables.frontier.get key = some task ∧ key.1 = platform ∧ key.2.1 = bucket := by
  rw [Tables.waiting, List.mem_filter, mem_tasks]
  simp

/-- The first task of a bucket is the earliest. -/
theorem waiting_least {bucket due pid : Nat} {other : String × Nat} {task : FrontierTask}
    (first : (tables.waiting platform bucket).head? = some ((other.1, other.2, due, pid), task)) :
    IsLeast {dueMs | tables.DueIn platform bucket dueMs} due := by
  obtain ⟨here, rfl, rfl⟩ := mem_waiting.mp (List.mem_of_mem_head? first)
  refine ⟨⟨pid, Option.isSome_iff_exists.mpr ⟨task, here⟩⟩, ?_⟩
  rintro dueMs ⟨who, there⟩
  obtain ⟨task', there⟩ := Option.isSome_iff_exists.mp there
  have among := mem_waiting.mpr ⟨there, rfl, rfl⟩
  have sorted := (tasks_sorted tables).filter
    fun entry => entry.1.1 = other.1 && entry.1.2.1 = other.2
  obtain ⟨rest, same⟩ := List.head?_eq_some_iff.mp first
  rw [same] at among
  rw [show tables.tasks.filter _ = _ from same] at sorted
  rcases List.mem_cons.mp among with equal | later
  · cases equal
    exact Nat.le_refl _
  · have order := (keyLe_iff _ _).mp ((List.pairwise_cons.mp sorted).1 _ later)
    simp only [lt_irrefl, true_and, false_or] at order
    omega

theorem not_dueIn {bucket : Nat} (none : (tables.waiting platform bucket).head? = none)
    (dueMs : Nat) : ¬ tables.DueIn platform bucket dueMs := by
  rintro ⟨pid, here⟩
  obtain ⟨task, here⟩ := Option.isSome_iff_exists.mp here
  have among : ((platform, bucket, dueMs, pid), task) ∈ tables.waiting platform bucket :=
    mem_waiting.mpr ⟨here, rfl, rfl⟩
  rw [List.head?_eq_none_iff.mp none] at among
  cases among

/-- The best so far and that of the rest. -/
theorem earliest_ends (buckets : List Nat) (state : State) (held : Nat → Prop) (best : Option Nat)
    (least : Least held best) :
    ∃ result, Ends (earliest platform best buckets) state result state ∧
      Least (fun dueMs => held dueMs ∨
        ∃ bucket ∈ buckets, state.tables.DueIn platform bucket dueMs) result := by
  induction buckets generalizing held best with
  | nil => exact ⟨best, rfl, least.congr fun dueMs => by simp⟩
  | cons bucket buckets ih =>
      have split : ∀ dueMs, (held dueMs ∨ state.tables.DueIn platform bucket dueMs) ∨
          (∃ bucket ∈ buckets, state.tables.DueIn platform bucket dueMs) ↔
            held dueMs ∨ ∃ other ∈ bucket :: buckets, state.tables.DueIn platform other dueMs := by
        intro dueMs
        rw [or_assoc, List.exists_mem_cons_iff]
      cases first : (state.tables.waiting platform bucket).head? with
      | none =>
          have still : Least (fun dueMs => held dueMs ∨ state.tables.DueIn platform bucket dueMs)
              best := least.congr fun dueMs => (or_iff_left (not_dueIn first dueMs)).symm
          obtain ⟨result, ends, found⟩ := ih _ best still
          refine ⟨result, ?_, found.congr split⟩
          unfold earliest
          refine Ends.bind rfl (Ends.bind rfl (Ends.bind rfl ?_))
          simp only [id_eq, first]
          exact ends
      | some entry =>
          obtain ⟨⟨other, bucket', due, pid⟩, task⟩ := entry
          have own := @waiting_least _ _ _ _ _ (other, bucket') _ first
          have best' : Least (fun dueMs => held dueMs ∨ state.tables.DueIn platform bucket dueMs)
              (some (best.elim due fun b => min b due)) := by
            cases best with
            | none =>
                have own' : Least (state.tables.DueIn platform bucket) (some due) := own
                exact own'.congr fun dueMs => (or_iff_right (least dueMs)).symm
            | some b => exact IsLeast.union least own
          obtain ⟨result, ends, found⟩ := ih _ _ best'
          refine ⟨result, ?_, found.congr split⟩
          unfold earliest
          refine Ends.bind rfl (Ends.bind rfl (Ends.bind rfl ?_))
          simp only [id_eq, first]
          exact ends

/-- **The next task** is the one that is due first. -/
theorem frontierNextDue_ends {state : State} (paired : state.tables.Paired) :
    ∃ result, Ends (frontierNextDue platform) state result state ∧
      Least (state.tables.DueAt platform) result := by
  obtain ⟨result, ends, least⟩ := @earliest_ends platform [bucketPriority, bucketOther]
    state (fun _ => False) none fun _ => id
  refine ⟨result, Ends.bind rfl (Ends.bind rfl ends), least.congr fun dueMs => ?_⟩
  rw [false_or]
  constructor
  · rintro ⟨bucket, -, here⟩
    exact ⟨bucket, here⟩
  · rintro ⟨bucket, pid, here⟩
    obtain ⟨task, there⟩ := Option.isSome_iff_exists.mp here
    have known := paired.buckets pid _ (paired.indexed _ _ _ _ _ there)
    exact ⟨bucket, by simpa using known, pid, here⟩

end Next

end LolCrawler.Store
