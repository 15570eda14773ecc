import Mathlib.Data.String.Basic
import LolCrawler.Foundation.Run
import LolCrawler.Store.Frontier

/-! # The frontier as a queue

The tasks and the index stay paired: the index row of a player names the one key
under which the player waits (`Tables.Paired`). Whatever moves a task puts the player
under one new key and touches no other player (`Placed`); pushes, `backfill` and the
reconciliation are made of such moves, and a pop is the opposite.
-/

namespace LolCrawler.Store

open Foundation Prog

/-! ## Pairs of rows -/

/-- Each task is the one its player's index row names. -/
structure Tables.Paired (tables : Tables) : Prop where
  indexed : ∀ platform bucket dueMs pid task,
    tables.frontier.get (platform, bucket, dueMs, pid) = some task →
      tables.frontierIdx.get pid = some ⟨platform, bucket, dueMs⟩
  waiting : ∀ pid key, tables.frontierIdx.get pid = some key →
    ∃ task, tables.frontier.get (key.platform, key.bucket, key.dueMs, pid) = some task
  buckets : ∀ pid key, tables.frontierIdx.get pid = some key →
    key.bucket = bucketPriority ∨ key.bucket = bucketOther

/-- The player waits under this key only, and the other players as before. -/
structure Placed (before after : Tables) (pid : Nat) (key : FrontierKey) (task : FrontierTask) :
    Prop where
  index : after.frontierIdx.get pid = some key
  tasks : ∀ platform bucket dueMs, after.frontier.get (platform, bucket, dueMs, pid) =
    if key = ⟨platform, bucket, dueMs⟩ then some task else none
  others : ∀ other, other ≠ pid → after.frontierIdx.get other = before.frontierIdx.get other ∧
    ∀ platform bucket dueMs, after.frontier.get (platform, bucket, dueMs, other) =
      before.frontier.get (platform, bucket, dueMs, other)

/-- The task goes under the key, and the index row names it. -/
def Tables.enqueue (tables : Tables) (pid : Nat) (key : FrontierKey) (task : FrontierTask) :
    Tables :=
  { tables with
    frontier := tables.frontier.insert (key.platform, key.bucket, key.dueMs, pid) task
    frontierIdx := tables.frontierIdx.insert pid key }

/-- The task of this key goes. -/
def Tables.dequeue (tables : Tables) (pid : Nat) : Option FrontierKey → Tables
  | none => tables
  | some key =>
      { tables with
        frontier := tables.frontier.remove (key.platform, key.bucket, key.dueMs, pid) }

section Paired

variable {tables after : Tables} {pid : Nat} {key : FrontierKey} {task : FrontierTask}

/-- A player's task is under the key of the index. -/
theorem Tables.Paired.get_eq_none (paired : tables.Paired) {platform : String}
    {bucket dueMs : Nat} (other : tables.frontierIdx.get pid ≠ some ⟨platform, bucket, dueMs⟩) :
    tables.frontier.get (platform, bucket, dueMs, pid) = none := by
  cases found : tables.frontier.get (platform, bucket, dueMs, pid) with
  | none => rfl
  | some task => exact (other (paired.indexed _ _ _ _ _ found)).elim

/-- Moving a player to a new key. -/
theorem Tables.Paired.move (paired : tables.Paired) (pid : Nat) (key : FrontierKey)
    (task : FrontierTask) :
    Placed tables ((tables.dequeue pid (tables.frontierIdx.get pid)).enqueue pid key task) pid key
      task := by
  have index : (tables.dequeue pid (tables.frontierIdx.get pid)).frontierIdx =
    tables.frontierIdx := by
    cases tables.frontierIdx.get pid <;> rfl
  have gone : ∀ platform bucket dueMs,
      (tables.dequeue pid (tables.frontierIdx.get pid)).frontier.get
      (platform, bucket, dueMs, pid) =
        none := by
    intro platform bucket dueMs
    cases existing : tables.frontierIdx.get pid with
    | none => exact paired.get_eq_none (by rw [existing]; nofun)
    | some old =>
        simp only [Tables.dequeue, Table.get_remove]
        split
        · rfl
        · next different =>
            apply paired.get_eq_none
            rw [existing]
            rintro ⟨rfl⟩
            exact different rfl
  have kept : ∀ other, other ≠ pid → ∀ platform bucket dueMs,
      (tables.dequeue pid (tables.frontierIdx.get pid)).frontier.get
      (platform, bucket, dueMs, other) =
        tables.frontier.get (platform, bucket, dueMs, other) := by
    intro other apart platform bucket dueMs
    cases tables.frontierIdx.get pid with
    | none => rfl
    | some old => simp [Tables.dequeue, Table.get_remove, apart]
  refine ⟨Table.get_insert_self _ _ _, fun platform bucket dueMs => ?_, fun other apart => ⟨?_, ?_⟩⟩
  · simp only [Tables.enqueue, Table.get_insert, gone]
    obtain ⟨platform', bucket', dueMs'⟩ := key
    simp only [Prod.mk.injEq, FrontierKey.mk.injEq, and_true]
    congr 1
    simp only [eq_comm]
  · simp only [Tables.enqueue, index]
    exact Table.get_insert_of_ne _ _ apart
  · intro platform bucket dueMs
    simp only [Tables.enqueue]
    rw [Table.get_insert_of_ne, kept other apart]
    intro same
    exact apart (Prod.mk.inj (Prod.mk.inj (Prod.mk.inj same).2).2).2

/-- A placed player leaves the rows paired. -/
theorem Tables.Paired.placed (paired : tables.Paired) (placed : Placed tables after pid key task)
    (bucket : key.bucket = bucketPriority ∨ key.bucket = bucketOther) : after.Paired := by
  refine ⟨fun platform bucket dueMs other found there => ?_, fun other found there => ?_,
    fun other found there => ?_⟩
  · by_cases same : other = pid
    · subst same
      rw [placed.tasks] at there
      split at there
      · next here => rw [placed.index, here]
      · cases there
    · obtain ⟨index, tasks⟩ := placed.others other same
      rw [tasks] at there
      rw [index]
      exact paired.indexed _ _ _ _ _ there
  · by_cases same : other = pid
    · subst same
      rw [placed.index, Option.some.injEq] at there
      subst there
      exact ⟨task, by rw [placed.tasks, if_pos rfl]⟩
    · obtain ⟨index, tasks⟩ := placed.others other same
      rw [index] at there
      obtain ⟨found', here⟩ := paired.waiting other found there
      exact ⟨found', by rw [tasks, here]⟩
  · by_cases same : other = pid
    · subst same
      rw [placed.index, Option.some.injEq] at there
      exact there ▸ bucket
    · rw [(placed.others other same).1] at there
      exact paired.buckets other found there

end Paired

/-! ## Pushes -/

/-- A push, unless the player waits in as good a bucket. -/
def Tables.pushed (platform : String) (bucket dueMs : Nat) (tables : Tables)
    (item : Nat × FrontierTask) : Tables :=
  if queued bucket (tables.frontierIdx.get item.1) then tables
  else (tables.dequeue item.1 (tables.frontierIdx.get item.1)).enqueue item.1
    ⟨platform, bucket, dueMs⟩ item.2

/-- The state after a transaction that left these tables. -/
def State.committed (state : State) (tables : Tables) : State :=
  { state with working := tables, tables := tables }

section Push

variable (platform : String) (bucket dueMs : Nat)

/-- A push keeps the frontier and its index in step. -/
theorem Tables.Paired.pushed {tables : Tables} (paired : tables.Paired)
    (known : bucket = bucketPriority ∨ bucket = bucketOther) (item : Nat × FrontierTask) :
    (tables.pushed platform bucket dueMs item).Paired := by
  unfold Tables.pushed
  split
  · exact paired
  · exact paired.placed (paired.move _ _ _) known

/-- Several pushes keep the queue and its index paired. -/
theorem Tables.Paired.pushedAll {tables : Tables} (paired : tables.Paired)
    (known : bucket = bucketPriority ∨ bucket = bucketOther) (items : List (Nat × FrontierTask)) :
    (items.foldl (Tables.pushed platform bucket dueMs) tables).Paired :=
  List.foldlRecOn items _ (motive := fun current : Tables => current.Paired) paired
    fun _ held item _ => held.pushed platform bucket dueMs known item

/-- The rows of one task, within the transaction, and what follows. -/
theorem moveTask_ends {rest : Act Unit} {pid : Nat} {task : FrontierTask}
    {existing : Option FrontierKey} {state after : State}
    (here : Ends rest
      { state with
        working := (state.working.dequeue pid existing).enqueue pid ⟨platform, bucket, dueMs⟩ task }
      () after) :
    Ends (do
      removeTask pid existing
      insertTask platform bucket dueMs pid task
      rest) state () after := by
  cases existing <;> exact here

/-- A push ends, and queues the player if none is queued. -/
theorem frontierPush_ends (pid : Nat) (task : FrontierTask) (state : State) :
    Ends (frontierPush platform bucket dueMs pid task) state ()
      (state.committed (state.tables.pushed platform bucket dueMs (pid, task))) := by
  have begun : ∀ after, Ends (if queued bucket (state.tables.frontierIdx.get pid) then pure ()
      else do
        removeTask pid (state.tables.frontierIdx.get pid)
        insertTask platform bucket dueMs pid task
        commitFast .frontier) { state with working := state.tables } () after →
      Ends (frontierPush platform bucket dueMs pid task) state () after := fun _ here => here
  apply begun
  unfold Tables.pushed
  split
  · rfl
  · exact moveTask_ends platform bucket dueMs rfl

/-- The tasks of a batch are pushed one by one. -/
theorem pushTasks_ends (items : List (Nat × FrontierTask)) (state : State) :
    Ends (pushTasks platform bucket dueMs items) state ()
      { state with
        working := items.foldl (Tables.pushed platform bucket dueMs) state.working } := by
  induction items generalizing state with
  | nil => rfl
  | cons item items ih =>
      obtain ⟨pid, task⟩ := item
      have asked : ∀ after, Ends (if queued bucket (state.working.frontierIdx.get pid) then
          pushTasks platform bucket dueMs items
        else do
          removeTask pid (state.working.frontierIdx.get pid)
          insertTask platform bucket dueMs pid task
          pushTasks platform bucket dueMs items) state () after →
          Ends (pushTasks platform bucket dueMs ((pid, task) :: items)) state () after :=
        fun _ here => here
      apply asked
      rw [List.foldl_cons]
      by_cases waits : queued bucket (state.working.frontierIdx.get pid)
      · rw [if_pos waits, Tables.pushed, if_pos waits]
        exact ih state
      · rw [if_neg waits, Tables.pushed, if_neg waits]
        exact moveTask_ends platform bucket dueMs (ih _)

/-- A batch ends, and has pushed its tasks one by one. -/
theorem frontierPushBatch_ends (items : List (Nat × FrontierTask)) (state : State) :
    ∃ working, Ends (frontierPushBatch platform bucket dueMs items) state ()
      { state with
        working := working
        tables := items.foldl (Tables.pushed platform bucket dueMs) state.tables } := by
  unfold frontierPushBatch
  cases items with
  | nil => exact ⟨state.working, rfl⟩
  | cons item items =>
      refine ⟨(item :: items).foldl (Tables.pushed platform bucket dueMs) state.tables, ?_⟩
      have pushed := pushTasks_ends platform bucket dueMs (item :: items)
        { state with working := state.tables }
      exact pushed.bind rfl

/-- Pushing one by one, each in its own transaction. -/
def pushEach : List (Nat × FrontierTask) → Act Unit
  | [] => pure ()
  | (pid, task) :: items => do
      frontierPush platform bucket dueMs pid task
      pushEach items

/-- The same tasks, pushed each in a transaction of its own. -/
theorem pushEach_ends (items : List (Nat × FrontierTask)) (state : State) :
    ∃ working, Ends (pushEach platform bucket dueMs items) state ()
      { state with
        working := working
        tables := items.foldl (Tables.pushed platform bucket dueMs) state.tables } := by
  induction items generalizing state with
  | nil => exact ⟨state.working, rfl⟩
  | cons item items ih =>
      obtain ⟨pid, task⟩ := item
      obtain ⟨working, rest⟩ := ih (state.committed
        (state.tables.pushed platform bucket dueMs (pid, task)))
      exact ⟨working, (frontierPush_ends platform bucket dueMs pid task state).bind rest⟩

end Push

/-! ## Pops -/

section Order

/-- Keys are ordered by platform, bucket, due time and player. -/
theorem keyLe_iff (first second : String × Nat × Nat × Nat) :
    keyLe first second = true ↔ first.1 < second.1 ∨ first.1 = second.1 ∧
      (first.2.1 < second.2.1 ∨ first.2.1 = second.2.1 ∧
        (first.2.2.1 < second.2.2.1 ∨ first.2.2.1 = second.2.2.1 ∧
          first.2.2.2 ≤ second.2.2.2)) := by
  simp [keyLe]

/-- Two keys can be compared. -/
theorem keyLe_total (first second : String × Nat × Nat × Nat) :
    keyLe first second = true ∨ keyLe second first = true := by
  rw [keyLe_iff, keyLe_iff]
  rcases lt_trichotomy first.1 second.1 with below | same | above
  · exact .inl (.inl below)
  · rw [same]
    by_cases ordered : first.2.1 < second.2.1 ∨ first.2.1 = second.2.1 ∧
        (first.2.2.1 < second.2.2.1 ∨ first.2.2.1 = second.2.2.1 ∧
          first.2.2.2 ≤ second.2.2.2)
    · exact .inl (.inr ⟨rfl, ordered⟩)
    · refine .inr (.inr ⟨rfl, ?_⟩)
      omega
  · exact .inr (.inl above)

/-- The order of keys is transitive. -/
theorem keyLe_trans {first second third : String × Nat × Nat × Nat}
    (one : keyLe first second = true) (two : keyLe second third = true) :
    keyLe first third = true := by
  rw [keyLe_iff] at one two ⊢
  rcases one with below | ⟨same, one⟩
  · rcases two with below' | ⟨same', _⟩
    · exact .inl (lt_trans below below')
    · exact .inl (same' ▸ below)
  · rcases two with below' | ⟨same', two⟩
    · exact .inl (same ▸ below')
    · refine .inr ⟨same.trans same', ?_⟩
      omega

/-- The tasks are sorted by their keys. -/
theorem tasks_sorted (tables : Tables) :
    tables.tasks.Pairwise fun first second => keyLe first.1 second.1 = true := by
  have total : Std.Total fun first second : (String × Nat × Nat × Nat) × FrontierTask =>
      keyLe first.1 second.1 = true := ⟨fun first second => keyLe_total first.1 second.1⟩
  have trans : IsTrans ((String × Nat × Nat × Nat) × FrontierTask) fun first second =>
      keyLe first.1 second.1 = true := ⟨fun _ _ _ => keyLe_trans⟩
  exact List.pairwise_insertionSort _ _

end Order

/-- The tasks are those of the frontier. -/
theorem mem_tasks {tables : Tables} {key : String × Nat × Nat × Nat} {task : FrontierTask} :
    (key, task) ∈ tables.tasks ↔ tables.frontier.get key = some task := by
  rw [Tables.tasks, List.mem_insertionSort, Table.get_eq_some]

/-- The tasks that are due are those of the frontier. -/
theorem mem_due {tables : Tables} {platform platform' : String}
    {bucket bucket' dueMs pid nowMs : Nat}
    {task : FrontierTask} :
    ((platform', bucket', dueMs, pid), task) ∈ tables.due platform bucket nowMs ↔
      tables.frontier.get (platform', bucket', dueMs, pid) = some task ∧ platform' = platform ∧
        bucket' = bucket ∧ dueMs ≤ nowMs := by
  rw [Tables.due, List.mem_filter, mem_tasks]
  simp [and_assoc]

/-- The order of a platform's tasks: bucket, due time, player. -/
def ComesFirst (first second : Nat × Nat × Nat) : Prop :=
  first.1 < second.1 ∨ first.1 = second.1 ∧
    (first.2.1 < second.2.1 ∨ first.2.1 = second.2.1 ∧ first.2.2 ≤ second.2.2)

/-- No task of this bucket is due. -/
theorem due_eq_nil {tables : Tables} {platform : String} {bucket nowMs : Nat}
    (none : (tables.due platform bucket nowMs).head? = none) {dueMs pid : Nat} {task : FrontierTask}
    (there : tables.frontier.get (platform, bucket, dueMs, pid) = some task) : nowMs < dueMs := by
  rw [List.head?_eq_none_iff] at none
  by_contra early
  have inside : ((platform, bucket, dueMs, pid), task) ∈ tables.due platform bucket nowMs :=
    mem_due.mpr ⟨there, rfl, rfl, Nat.not_lt.mp early⟩
  rw [none] at inside
  cases inside

/-- The first due task of a bucket is its least. -/
theorem due_least {tables : Tables} {platform : String} {bucket nowMs : Nat}
    {entry : (String × Nat × Nat × Nat) × FrontierTask}
    (first : (tables.due platform bucket nowMs).head? = some entry) {dueMs pid : Nat}
    {task : FrontierTask}
    (there : tables.frontier.get (platform, bucket, dueMs, pid) = some task)
    (early : dueMs ≤ nowMs) : keyLe entry.1 (platform, bucket, dueMs, pid) = true := by
  have sorted : (tables.due platform bucket nowMs).Pairwise fun first second =>
      keyLe first.1 second.1 = true := (tasks_sorted tables).filter _
  have inside : ((platform, bucket, dueMs, pid), task) ∈ tables.due platform bucket nowMs :=
    mem_due.mpr ⟨there, rfl, rfl, early⟩
  obtain ⟨rest, shape⟩ := List.head?_eq_some_iff.mp first
  rw [shape] at sorted inside
  rcases List.mem_cons.mp inside with rfl | later
  · rw [keyLe_iff]
    exact .inr ⟨rfl, .inr ⟨rfl, .inr ⟨rfl, Nat.le_refl _⟩⟩⟩
  · exact List.rel_of_pairwise_cons sorted later

/-- The rows of a player who waits under this key go. -/
def Tables.popped (tables : Tables) (key : FrontierKey) (pid : Nat) : Tables :=
  { tables with
    frontier := tables.frontier.remove (key.platform, key.bucket, key.dueMs, pid)
    frontierIdx := tables.frontierIdx.remove pid }

/-- The least due task of a platform, and nothing else, leaves the tables. -/
structure PopsLeast (platform : String) (nowMs : Nat) (before : Tables)
    (result : Option (Nat × Nat × FrontierTask)) (after : Tables) : Prop where
  none_iff : result = none ↔ ∀ bucket dueMs pid task,
    before.frontier.get (platform, bucket, dueMs, pid) = some task → nowMs < dueMs
  unchanged : result = none → after = before
  least : ∀ bucket pid task, result = some (bucket, pid, task) → ∃ dueMs ≤ nowMs,
    before.frontier.get (platform, bucket, dueMs, pid) = some task ∧
      after = before.popped ⟨platform, bucket, dueMs⟩ pid ∧
      ∀ bucket' dueMs' pid' task',
        before.frontier.get (platform, bucket', dueMs', pid') = some task' → dueMs' ≤ nowMs →
          ComesFirst (bucket, dueMs, pid) (bucket', dueMs', pid')

section Pop

variable (platform : String) (nowMs : Nat)

/-- What the pop of a bucket's first due task leaves. -/
theorem popsLeast_of_first {tables : Tables} {bucket dueMs pid : Nat} {task : FrontierTask}
    (first : (tables.due platform bucket nowMs).head? =
      some ((platform, bucket, dueMs, pid), task))
    (better : ∀ bucket' dueMs' pid' task',
      tables.frontier.get (platform, bucket', dueMs', pid') = some task' → dueMs' ≤ nowMs →
        bucket ≤ bucket') :
    PopsLeast platform nowMs tables (some (bucket, pid, task))
      (tables.popped ⟨platform, bucket, dueMs⟩ pid) := by
  obtain ⟨there, -, -, early⟩ := mem_due.mp (List.mem_of_mem_head? first)
  refine ⟨⟨nofun, fun none => ?_⟩, nofun, ?_⟩
  · exact absurd (none _ _ _ _ there) (Nat.not_lt.mpr early)
  · rintro _ _ _ ⟨rfl⟩
    refine ⟨dueMs, early, there, rfl, fun bucket' dueMs' pid' task' there' early' => ?_⟩
    rcases Nat.lt_or_eq_of_le (better _ _ _ _ there' early') with below | rfl
    · exact .inl below
    · have least := due_least first there' early'
      rw [keyLe_iff] at least
      simp only [lt_irrefl, true_and, false_or] at least
      exact .inr ⟨rfl, least⟩

/-- The first task of a bucket is popped. -/
theorem popBuckets_ends_first {buckets : List Nat} {bucket dueMs pid : Nat} {task : FrontierTask}
    {state : State}
    (first : (state.working.due platform bucket nowMs).head? =
      some ((platform, bucket, dueMs, pid), task)) :
    Ends (popBuckets platform nowMs (bucket :: buckets)) state (some (bucket, pid, task))
      { state with working := state.working.popped ⟨platform, bucket, dueMs⟩ pid } := by
  unfold popBuckets
  refine Ends.bind rfl (Ends.bind rfl (Ends.bind rfl ?_))
  simp only [id_eq, first]
  exact rfl

/-- A bucket without a task that is due is passed over. -/
theorem popBuckets_ends_next {buckets : List Nat} {bucket : Nat} {state after : State}
    {result : Option (Nat × Nat × FrontierTask)}
    (none : (state.working.due platform bucket nowMs).head? = none)
    (rest : Ends (popBuckets platform nowMs buckets) state result after) :
    Ends (popBuckets platform nowMs (bucket :: buckets)) state result after := by
  conv =>
    arg 1
    unfold popBuckets
  refine Ends.bind rfl (Ends.bind rfl (Ends.bind rfl ?_))
  simp only [id_eq, none]
  exact rest

/-- **A pop** ends, and takes the least task that is due. -/
theorem frontierPopDue_ends (state : State) (paired : state.tables.Paired) :
    ∃ result after, Ends (frontierPopDue platform nowMs) state result (state.committed after) ∧
      PopsLeast platform nowMs state.tables result after := by
  have bucket_cases : ∀ {bucket dueMs pid task},
      state.tables.frontier.get (platform, bucket, dueMs, pid) = some task →
        bucket = bucketPriority ∨ bucket = bucketOther := by
    intro bucket dueMs pid task there
    exact paired.buckets pid _ (paired.indexed _ _ _ _ _ there)
  have found : ∀ {bucket entry}, (state.tables.due platform bucket nowMs).head? = some entry →
      ∃ dueMs pid task, entry = ((platform, bucket, dueMs, pid), task) := by
    rintro bucket ⟨⟨platform', bucket', dueMs, pid⟩, task⟩ first
    obtain ⟨-, rfl, rfl, -⟩ := mem_due.mp (List.mem_of_mem_head? first)
    exact ⟨dueMs, pid, task, rfl⟩
  cases high : (state.tables.due platform bucketPriority nowMs).head? with
  | some entry =>
      obtain ⟨dueMs, pid, task, rfl⟩ := found high
      refine ⟨_, _, ?_, popsLeast_of_first platform nowMs high fun bucket' _ _ _ _ _ =>
        Nat.zero_le bucket'⟩
      have popped : Ends (popBuckets platform nowMs [bucketPriority, bucketOther])
          { state with working := state.tables } _ _ := popBuckets_ends_first platform nowMs high
      exact popped.bind rfl
  | none =>
      cases low : (state.tables.due platform bucketOther nowMs).head? with
      | some entry =>
          obtain ⟨dueMs, pid, task, rfl⟩ := found low
          refine ⟨_, _, ?_, popsLeast_of_first platform nowMs low
            fun bucket' _ _ _ there early => ?_⟩
          · have popped : Ends (popBuckets platform nowMs [bucketPriority, bucketOther])
                { state with working := state.tables } _ _ :=
              popBuckets_ends_next platform nowMs high (popBuckets_ends_first platform nowMs low)
            exact popped.bind rfl
          · rcases bucket_cases there with rfl | rfl
            · exact absurd (due_eq_nil high there) (Nat.not_lt.mpr early)
            · exact Nat.le_refl _
      | none =>
          refine ⟨none, state.tables, ?_, ⟨⟨fun _ => ?_, fun _ => rfl⟩, fun _ => rfl, nofun⟩⟩
          · have popped : Ends (popBuckets platform nowMs [bucketPriority, bucketOther])
                { state with working := state.tables } none
                { state with working := state.tables } :=
              popBuckets_ends_next platform nowMs high (popBuckets_ends_next platform nowMs low rfl)
            exact popped.bind rfl
          · intro bucket dueMs pid task there
            rcases bucket_cases there with rfl | rfl
            · exact due_eq_nil high there
            · exact due_eq_nil low there

end Pop

/-- A pop keeps the rows paired. -/
theorem Tables.Paired.popped {tables : Tables} (paired : tables.Paired) {key : FrontierKey}
    {pid : Nat} (index : tables.frontierIdx.get pid = some key) :
    (tables.popped key pid).Paired := by
  have rows : ∀ platform bucket dueMs other,
      (tables.popped key pid).frontier.get (platform, bucket, dueMs, other) =
        if other = pid then none else tables.frontier.get (platform, bucket, dueMs, other) := by
    intro platform bucket dueMs other
    simp only [Tables.popped, Table.get_remove]
    by_cases same : other = pid
    · subst same
      rw [if_pos rfl]
      split
      · rfl
      · next different =>
          apply paired.get_eq_none
          rw [index]
          rintro ⟨rfl⟩
          exact different rfl
    · simp [same]
  have indexes : ∀ other, (tables.popped key pid).frontierIdx.get other =
      if other = pid then none else tables.frontierIdx.get other := by
    intro other
    simp only [Tables.popped, Table.get_remove]
  refine ⟨fun platform bucket dueMs other task there => ?_, fun other found there => ?_,
    fun other found there => ?_⟩
  · rw [rows] at there
    rw [indexes]
    split at there
    · cases there
    · next apart =>
        rw [if_neg apart]
        exact paired.indexed _ _ _ _ _ there
  · rw [indexes] at there
    split at there
    · cases there
    · next apart =>
        obtain ⟨task, here⟩ := paired.waiting other found there
        exact ⟨task, by rw [rows, if_neg apart, here]⟩
  · rw [indexes] at there
    split at there
    · cases there
    · exact paired.buckets other found there

/-- A pop keeps the frontier and its index in step. -/
theorem PopsLeast.paired {platform : String} {nowMs : Nat} {before after : Tables}
    {result : Option (Nat × Nat × FrontierTask)}
    (pops : PopsLeast platform nowMs before result after)
    (paired : before.Paired) : after.Paired := by
  cases result with
  | none =>
      rw [pops.unchanged rfl]
      exact paired
  | some found =>
      obtain ⟨bucket, pid, task⟩ := found
      obtain ⟨dueMs, -, there, rfl, -⟩ := pops.least _ _ _ rfl
      exact paired.popped (paired.indexed _ _ _ _ _ there)

/-! ## Backfill -/

/-- A task becomes a deep visit that is due now. -/
def Tables.deepened (nowMs : Nat) (tables : Tables)
    (entry : (String × Nat × Nat × Nat) × FrontierTask) : Tables :=
  (tables.dequeue entry.1.2.2.2 (some ⟨entry.1.1, bucketPriority, entry.1.2.2.1⟩)).enqueue
    entry.1.2.2.2 ⟨entry.1.1, bucketPriority, nowMs⟩ ⟨entry.2.puuid, deepVisitMs⟩

/-- The tasks are written anew one by one. -/
theorem deepen_ends (nowMs : Nat) (entries : List ((String × Nat × Nat × Nat) × FrontierTask))
    (state : State) :
    Ends (deepen nowMs entries) state ()
      { state with working := entries.foldl (Tables.deepened nowMs) state.working } := by
  induction entries generalizing state with
  | nil => rfl
  | cons entry entries ih =>
      have first : ∀ after, Ends (deepen nowMs entries)
          { state with working := state.working.deepened nowMs entry } () after →
            Ends (deepen nowMs (entry :: entries)) state () after := fun _ here => here
      exact first _ (ih _)

/-- The rows of a player are as they were. -/
def SameRows (before after : Tables) (pid : Nat) : Prop :=
  after.frontierIdx.get pid = before.frontierIdx.get pid ∧
    ∀ platform bucket dueMs, after.frontier.get (platform, bucket, dueMs, pid) =
      before.frontier.get (platform, bucket, dueMs, pid)

/-- The player waits under this key only. -/
def Waits (tables : Tables) (pid : Nat) (key : FrontierKey) (task : FrontierTask) : Prop :=
  tables.frontierIdx.get pid = some key ∧
    ∀ platform bucket dueMs, tables.frontier.get (platform, bucket, dueMs, pid) =
      if key = ⟨platform, bucket, dueMs⟩ then some task else none

/-- Exactly the priority tasks of cohort members become deep tasks that are due now. -/
structure Deepens (nowMs : Nat) (cohort : Finset Nat) (before after : Tables) : Prop where
  converted : ∀ platform dueMs pid task, pid ∈ cohort →
    before.frontier.get (platform, bucketPriority, dueMs, pid) = some task →
      Waits after pid ⟨platform, bucketPriority, nowMs⟩ ⟨task.puuid, deepVisitMs⟩
  kept : ∀ pid, (pid ∉ cohort ∨ ∀ platform dueMs,
    before.frontier.get (platform, bucketPriority, dueMs, pid) = none) → SameRows before after pid
  rest : ∃ frontier frontierIdx,
    after = { before with frontier := frontier, frontierIdx := frontierIdx }

section Deepen

variable {tables : Tables} (nowMs : Nat)

/-- A task that is marked stays in its place. -/
theorem Tables.Paired.deepened (paired : tables.Paired)
    {entry : (String × Nat × Nat × Nat) × FrontierTask}
    (bucket : entry.1.2.1 = bucketPriority) (there : tables.frontier.get entry.1 = some entry.2) :
    Placed tables (tables.deepened nowMs entry) entry.1.2.2.2 ⟨entry.1.1, bucketPriority, nowMs⟩
      ⟨entry.2.puuid, deepVisitMs⟩ := by
  obtain ⟨⟨platform, _, dueMs, pid⟩, task⟩ := entry
  subst bucket
  have index := paired.indexed platform bucketPriority dueMs pid task there
  have moved := paired.move pid ⟨platform, bucketPriority, nowMs⟩ ⟨task.puuid, deepVisitMs⟩
  rw [index] at moved
  exact moved

/-- Tasks of different players become deep one after the other. -/
theorem deepenAll (entries : List ((String × Nat × Nat × Nat) × FrontierTask))
    (paired : tables.Paired)
    (apart : entries.Pairwise fun first second => first.1.2.2.2 ≠ second.1.2.2.2)
    (there : ∀ entry ∈ entries, entry.1.2.1 = bucketPriority ∧
      tables.frontier.get entry.1 = some entry.2) :
    (entries.foldl (Tables.deepened nowMs) tables).Paired ∧
      (∀ entry ∈ entries, Waits (entries.foldl (Tables.deepened nowMs) tables) entry.1.2.2.2
        ⟨entry.1.1, bucketPriority, nowMs⟩ ⟨entry.2.puuid, deepVisitMs⟩) ∧
      (∀ pid, (∀ entry ∈ entries, entry.1.2.2.2 ≠ pid) →
        SameRows tables (entries.foldl (Tables.deepened nowMs) tables) pid) ∧
      ∃ frontier frontierIdx, entries.foldl (Tables.deepened nowMs) tables =
        { tables with frontier := frontier, frontierIdx := frontierIdx } := by
  induction entries generalizing tables with
  | nil => exact ⟨paired, nofun, fun _ _ => ⟨rfl, fun _ _ _ => rfl⟩, _, _, rfl⟩
  | cons entry entries ih =>
      obtain ⟨different, apart⟩ := List.pairwise_cons.mp apart
      obtain ⟨bucket, here⟩ := there entry List.mem_cons_self
      have placed := paired.deepened nowMs bucket here
      obtain ⟨paired', waits, kept, frontier, frontierIdx, rest⟩ := ih
        (paired.placed placed (.inl rfl)) apart fun other inside => by
          obtain ⟨bucket, found⟩ := there other (List.mem_cons_of_mem _ inside)
          refine ⟨bucket, ?_⟩
          have same := (placed.others other.1.2.2.2 (different other inside).symm).2 other.1.1
            other.1.2.1 other.1.2.2.1
          rw [show other.1 = (other.1.1, other.1.2.1, other.1.2.2.1, other.1.2.2.2) from rfl, same]
          exact found
      refine ⟨paired', fun other inside => ?_, fun pid outside => ?_, frontier, frontierIdx, rest⟩
      · rcases List.mem_cons.mp inside with rfl | inside
        · obtain ⟨index, tasks⟩ := kept other.1.2.2.2 fun later inside =>
            (different later inside).symm
          exact ⟨index.trans placed.index, fun platform bucket dueMs =>
            (tasks platform bucket dueMs).trans (placed.tasks platform bucket dueMs)⟩
        · exact waits other inside
      · obtain ⟨index, tasks⟩ := kept pid fun later inside =>
          outside later (List.mem_cons_of_mem _ inside)
        obtain ⟨index', tasks'⟩ := placed.others pid (outside entry List.mem_cons_self).symm
        exact ⟨index.trans index', fun platform bucket dueMs =>
          (tasks platform bucket dueMs).trans (tasks' platform bucket dueMs)⟩

end Deepen

/-- The tasks that the backfill finds are those of members in the first bucket. -/
theorem mem_priorityTasks {tables : Tables} {cohort : Finset Nat}
    {entry : (String × Nat × Nat × Nat) × FrontierTask} :
    entry ∈ tables.priorityTasks cohort ↔ tables.frontier.get entry.1 = some entry.2 ∧
      entry.1.2.1 = bucketPriority ∧ entry.1.2.2.2 ∈ cohort := by
  rw [Tables.priorityTasks, List.mem_filter, show entry = (entry.1, entry.2) from rfl, mem_tasks]
  simp

/-- A player has one priority task at most. -/
theorem priorityTasks_apart {tables : Tables} (paired : tables.Paired) (cohort : Finset Nat) :
    (tables.priorityTasks cohort).Pairwise fun first second => first.1.2.2.2 ≠ second.1.2.2.2 := by
  have keys : tables.tasks.Pairwise fun first second => first.1 ≠ second.1 :=
    (List.perm_insertionSort _ _).symm.pairwise (List.pairwise_map.mp tables.frontier.distinct)
      fun different => Ne.symm different
  refine (keys.filter _).imp_of_mem fun {first second} one two different same => different ?_
  obtain ⟨here, -⟩ := mem_priorityTasks.mp one
  obtain ⟨there, -⟩ := mem_priorityTasks.mp two
  have index := paired.indexed first.1.1 first.1.2.1 first.1.2.2.1 first.1.2.2.2 first.2 here
  have index' := paired.indexed second.1.1 second.1.2.1 second.1.2.2.1 second.1.2.2.2 second.2 there
  rw [← same, index, Option.some.injEq, FrontierKey.mk.injEq] at index'
  obtain ⟨platform, bucket, dueMs⟩ := index'
  exact Prod.ext platform (Prod.ext bucket (Prod.ext dueMs same))

/-- **The backfill** ends, and marks the tasks of the members. -/
theorem frontierBackfillReset_ends (nowMs : Nat) (state : State) (paired : state.tables.Paired) :
    ∃ count after, Ends (frontierBackfillReset nowMs) state count (state.committed after) ∧
      after.Paired ∧ Deepens nowMs state.ram.cohort state.tables after := by
  let entries := state.tables.priorityTasks state.ram.cohort
  have there : ∀ entry ∈ entries, entry.1.2.1 = bucketPriority ∧
      state.tables.frontier.get entry.1 = some entry.2 := by
    intro entry inside
    obtain ⟨here, bucket, -⟩ := mem_priorityTasks.mp inside
    exact ⟨bucket, here⟩
  obtain ⟨paired', waits, kept, rest⟩ := deepenAll nowMs entries paired
    (priorityTasks_apart paired _) there
  refine ⟨entries.length, entries.foldl (Tables.deepened nowMs) state.tables, ?_, paired',
    fun platform dueMs pid task member here => ?_, fun pid outside => ?_, rest⟩
  · have deepened : Ends (deepen nowMs entries) { state with working := state.tables } () _ :=
      deepen_ends nowMs entries _
    exact deepened.bind rfl
  · exact waits ((platform, bucketPriority, dueMs, pid), task)
      (mem_priorityTasks.mpr ⟨here, rfl, member⟩)
  · apply kept
    rintro ⟨⟨platform, bucket, dueMs, other⟩, task⟩ inside rfl
    obtain ⟨here, rfl, member⟩ := mem_priorityTasks.mp inside
    rcases outside with outside | none
    · exact outside member
    · exact nomatch (none platform dueMs).symm.trans here

/-! ## Reconciliation -/

/-- The stranded are pushed, each on its platform. -/
theorem pushStranded_ends (nowMs : Nat) (items : List (String × Nat × FrontierTask))
    (platforms : List String) (state : State) (paired : state.tables.Paired) :
    ∃ after, Ends (pushStranded nowMs items platforms) state () after ∧ after.tables.Paired := by
  induction platforms generalizing state with
  | nil => exact ⟨state, rfl, paired⟩
  | cons platform platforms ih =>
      obtain ⟨working, pushed⟩ := frontierPushBatch_ends platform bucketPriority nowMs
        ((items.filter fun item => item.1 = platform).map Prod.snd) state
      have paired' := paired.pushedAll platform bucketPriority nowMs (.inl rfl)
        ((items.filter fun item => item.1 = platform).map Prod.snd)
      obtain ⟨after, rest, last⟩ := ih
        { state with
          working := working
          tables := ((items.filter fun item => item.1 = platform).map Prod.snd).foldl
            (Tables.pushed platform bucketPriority nowMs) state.tables } paired'
      exact ⟨after, pushed.bind rest, last⟩

/-- Nobody is stranded. -/
theorem frontierReconcile_idle {state : State} (none : state.tables.stranded.isEmpty = true)
    (platforms : List String) (nowMs : Nat) :
    Ends (frontierReconcile platforms nowMs) state 0 state := by
  refine Ends.bind rfl (Ends.bind rfl (Ends.bind rfl (Ends.bind rfl ?_)))
  simp only [id_eq, none, ↓reduceIte]
  exact rfl

/-- The stranded members are pushed. -/
theorem frontierReconcile_pushed {state after : State} {platforms : List String} {nowMs : Nat}
    (some : ¬ state.tables.stranded.isEmpty = true)
    (pushed : Ends (pushStranded nowMs
      (state.tables.stranded.filterMap (requeued platforms state.ram state.tables)) platforms)
      state () after) :
    Ends (frontierReconcile platforms nowMs) state
      (state.tables.stranded.filterMap (requeued platforms state.ram state.tables)).length
      after := by
  refine Ends.bind rfl (Ends.bind rfl (Ends.bind rfl (Ends.bind rfl ?_)))
  simp only [id_eq, some, Bool.false_eq_true, ↓reduceIte]
  exact pushed.bind rfl

/-- The reconciliation ends, and keeps the frontier and its index in step. -/
theorem frontierReconcile_ends (platforms : List String) (nowMs : Nat) (state : State)
    (paired : state.tables.Paired) :
    ∃ count after, Ends (frontierReconcile platforms nowMs) state count after ∧
      after.tables.Paired := by
  by_cases none : state.tables.stranded.isEmpty
  · exact ⟨0, state, frontierReconcile_idle none platforms nowMs, paired⟩
  · obtain ⟨after, pushed, paired'⟩ := pushStranded_ends nowMs
      (state.tables.stranded.filterMap (requeued platforms state.ram state.tables)) platforms state
      paired
    exact ⟨_, after, frontierReconcile_pushed none pushed, paired'⟩

/-! ## Runs -/

inductive FrontierOp where
  | push (platform : String) (bucket dueMs pid : Nat) (task : FrontierTask)
  | pushBatch (platform : String) (bucket dueMs : Nat) (items : List (Nat × FrontierTask))
  | popDue (platform : String) (nowMs : Nat)
  | backfillReset (nowMs : Nat)
  | reconcile (platforms : List String) (nowMs : Nat)
  /-- The rest of the store: the cohort, the players and the games change in any way. -/
  | elsewhere

/-- One operation on the store. Tasks go to one of the two buckets. -/
def FrontierStep (state : State) : FrontierOp → State → Prop
  | .push platform bucket dueMs pid task, next =>
      (bucket = bucketPriority ∨ bucket = bucketOther) ∧
        Ends (frontierPush platform bucket dueMs pid task) state () next
  | .pushBatch platform bucket dueMs items, next =>
      (bucket = bucketPriority ∨ bucket = bucketOther) ∧
        Ends (frontierPushBatch platform bucket dueMs items) state () next
  | .popDue platform nowMs, next =>
      ∃ result, Ends (frontierPopDue platform nowMs) state result next
  | .backfillReset nowMs, next => ∃ count, Ends (frontierBackfillReset nowMs) state count next
  | .reconcile platforms nowMs, next =>
      ∃ count, Ends (frontierReconcile platforms nowMs) state count next
  | .elsewhere, next =>
      next.tables.frontier = state.tables.frontier ∧
        next.tables.frontierIdx = state.tables.frontierIdx

/-- **One operation** keeps the frontier and its index in step. -/
theorem FrontierStep.paired {state next : State} {op : FrontierOp}
    (step : FrontierStep state op next) (paired : state.tables.Paired) : next.tables.Paired := by
  cases op with
  | push platform bucket dueMs pid task =>
      obtain ⟨known, ends⟩ := step
      rw [(ends.unique (frontierPush_ends platform bucket dueMs pid task state)).2]
      exact paired.pushed platform bucket dueMs known _
  | pushBatch platform bucket dueMs items =>
      obtain ⟨known, ends⟩ := step
      obtain ⟨working, pushed⟩ := frontierPushBatch_ends platform bucket dueMs items state
      rw [(ends.unique pushed).2]
      exact paired.pushedAll platform bucket dueMs known _
  | popDue platform nowMs =>
      obtain ⟨result, ends⟩ := step
      obtain ⟨_, after, popped, least⟩ := frontierPopDue_ends platform nowMs state paired
      rw [(ends.unique popped).2]
      exact least.paired paired
  | backfillReset nowMs =>
      obtain ⟨count, ends⟩ := step
      obtain ⟨_, after, reset, paired', _⟩ := frontierBackfillReset_ends nowMs state paired
      rw [(ends.unique reset).2]
      exact paired'
  | reconcile platforms nowMs =>
      obtain ⟨count, ends⟩ := step
      obtain ⟨_, after, reconciled, paired'⟩ := frontierReconcile_ends platforms nowMs state paired
      rw [(ends.unique reconciled).2]
      exact paired'
  | elsewhere =>
      obtain ⟨frontier, index⟩ := step
      refine ⟨?_, ?_, ?_⟩
      · rw [frontier, index]
        exact paired.indexed
      · rw [frontier, index]
        exact paired.waiting
      · rw [index]
        exact paired.buckets

/-- **The frontier is a priority queue.** In every state of every run on an empty frontier the
task rows and the index rows are paired, and there a batch leaves the tables of single pushes, a
pop takes the least due task of its platform and nothing else, and `backfill` turns exactly the
priority tasks of cohort members into deep tasks that are due now. -/
theorem frontier_priority_queue {ops : List FrontierOp} {start state : State}
    (empty : start.tables.frontier = .empty ∧ start.tables.frontierIdx = .empty)
    (run : Run FrontierStep start ops state) :
    state.tables.Paired ∧
      (∀ platform bucket dueMs items, ∃ batch single,
        Ends (frontierPushBatch platform bucket dueMs items) state () batch ∧
          Ends (pushEach platform bucket dueMs items) state () single ∧
          batch.tables = single.tables) ∧
      (∀ platform nowMs, ∃ result after,
        Ends (frontierPopDue platform nowMs) state result after ∧
          PopsLeast platform nowMs state.tables result after.tables) ∧
      ∀ nowMs, ∃ count after, Ends (frontierBackfillReset nowMs) state count after ∧
        Deepens nowMs state.ram.cohort state.tables after.tables := by
  have start_paired : start.tables.Paired := by
    refine ⟨?_, ?_, ?_⟩
    · rw [empty.1]
      exact nofun
    · rw [empty.2]
      exact nofun
    · rw [empty.2]
      exact nofun
  have paired : state.tables.Paired :=
    run.invariant (fun state => state.tables.Paired) (fun _ _ _ held step => step.paired held)
      start_paired
  refine ⟨paired, fun platform bucket dueMs items => ?_, fun platform nowMs => ?_, fun nowMs => ?_⟩
  · obtain ⟨_, batch⟩ := frontierPushBatch_ends platform bucket dueMs items state
    obtain ⟨_, single⟩ := pushEach_ends platform bucket dueMs items state
    exact ⟨_, _, batch, single, rfl⟩
  · obtain ⟨result, after, ends, least⟩ := frontierPopDue_ends platform nowMs state paired
    exact ⟨result, _, ends, least⟩
  · obtain ⟨count, after, ends, -, deepens⟩ := frontierBackfillReset_ends nowMs state paired
    exact ⟨count, _, ends, deepens⟩

/-- A player moves to the priority bucket of another platform. -/
theorem frontier_priority_queue_moved :
    ∃ state, Run FrontierStep State.empty
        [.push "EUW1" bucketOther 5 7 ⟨"a", 0⟩,
          .pushBatch "NA1" bucketPriority 9 [(7, ⟨"a", 3⟩), (8, ⟨"b", 0⟩), (7, ⟨"a", 4⟩)]] state ∧
      state.tables.Paired ∧ state.tables.frontierIdx.get 7 = some ⟨"NA1", bucketPriority, 9⟩ ∧
      state.tables.frontier.get ("EUW1", bucketOther, 5, 7) = none := by
  have first := frontierPush_ends "EUW1" bucketOther 5 7 ⟨"a", 0⟩ State.empty
  obtain ⟨working, second⟩ := frontierPushBatch_ends "NA1" bucketPriority 9
    [(7, ⟨"a", 3⟩), (8, ⟨"b", 0⟩), (7, ⟨"a", 4⟩)]
    (State.empty.committed (State.empty.tables.pushed "EUW1" bucketOther 5 (7, ⟨"a", 0⟩)))
  have run : Run FrontierStep State.empty
      [.push "EUW1" bucketOther 5 7 ⟨"a", 0⟩,
        .pushBatch "NA1" bucketPriority 9 [(7, ⟨"a", 3⟩), (8, ⟨"b", 0⟩), (7, ⟨"a", 4⟩)]] _ :=
    .cons ⟨.inr rfl, first⟩ (.cons ⟨.inl rfl, second⟩ (.nil _))
  exact ⟨_, run, (frontier_priority_queue ⟨rfl, rfl⟩ run).1, rfl, rfl⟩

end LolCrawler.Store
