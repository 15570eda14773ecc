import LolCrawler.Store.Queue

/-! # The task of a player

A player waits in the frontier with one task (`Tables.Queued`). Whatever puts players
into the frontier uses the priority bucket (`Tables.Orderly`), so that a push leaves a
player who waits already as it is (`Pushes`).
-/

namespace LolCrawler.Store

open Foundation Prog

/-- The player waits with this task. -/
def Tables.Queued (tables : Tables) (pid : Nat) (task : FrontierTask) : Prop :=
  ∃ platform bucket dueMs, tables.frontier.get (platform, bucket, dueMs, pid) = some task

/-- The rows are paired, and every player waits in the priority bucket. -/
structure Tables.Orderly (tables : Tables) : Prop where
  paired : tables.Paired
  priority : ∀ pid key, tables.frontierIdx.get pid = some key → key.bucket = bucketPriority

/-- Nothing but the frontier changes. -/
structure OnlyFrontier (before after : State) : Prop where
  ram : after.ram = before.ram
  durable : after.durable = before.durable
  tables : ∃ frontier frontierIdx,
    after.tables = { before.tables with frontier := frontier, frontierIdx := frontierIdx }

/-- Nothing but the frontier has changed. -/
theorem OnlyFrontier.refl (state : State) : OnlyFrontier state state := ⟨rfl, rfl, _, _, rfl⟩

/-- Two changes, one after the other, of the frontier only. -/
theorem OnlyFrontier.trans {first second third : State} (one : OnlyFrontier first second)
    (two : OnlyFrontier second third) : OnlyFrontier first third := by
  obtain ⟨_, _, tables⟩ := one.tables
  obtain ⟨frontier, frontierIdx, tables'⟩ := two.tables
  exact ⟨two.ram.trans one.ram, two.durable.trans one.durable, frontier, frontierIdx,
    by rw [tables', tables]⟩

/-- Players who wait keep their task, and others come in with one of these. -/
structure Pushes (allowed : Nat → FrontierTask → Prop) (before after : Tables) : Prop where
  kept : ∀ pid task, before.Queued pid task → after.Queued pid task
  added : ∀ pid task, after.Queued pid task →
    before.Queued pid task ∨ (∀ other, ¬ before.Queued pid other) ∧ allowed pid task

section Queued

variable {tables after : Tables} {pid : Nat} {task other : FrontierTask}

/-- Who is queued is told by the frontier. -/
theorem queued_congr (frontier : after.frontier = tables.frontier) :
    after.Queued pid task ↔ tables.Queued pid task := by
  unfold Tables.Queued
  rw [frontier]

/-- The same rows of a player queue the same task. -/
theorem SameRows.queued_iff (same : SameRows tables after pid) :
    after.Queued pid task ↔ tables.Queued pid task := by
  unfold Tables.Queued
  simp only [same.2]

/-- Who waits is queued. -/
theorem Waits.queued {key : FrontierKey} (waits : Waits tables pid key task) :
    tables.Queued pid task :=
  ⟨key.platform, key.bucket, key.dueMs, by rw [waits.2, if_pos rfl]⟩

/-- Who waits is queued with that task. -/
theorem Waits.eq {key : FrontierKey} (waits : Waits tables pid key task)
    (queued : tables.Queued pid other) : other = task := by
  obtain ⟨platform, bucket, dueMs, here⟩ := queued
  rw [waits.2] at here
  split at here
  · exact (Option.some.inj here).symm
  · cases here

/-- Who is queued is indexed. -/
theorem Tables.Paired.queued_iff (paired : tables.Paired) :
    (∃ task, tables.Queued pid task) ↔ (tables.frontierIdx.get pid).isSome := by
  rw [Option.isSome_iff_exists]
  constructor
  · rintro ⟨task, platform, bucket, dueMs, here⟩
    exact ⟨_, paired.indexed _ _ _ _ _ here⟩
  · rintro ⟨key, here⟩
    obtain ⟨task, there⟩ := paired.waiting pid key here
    exact ⟨task, key.platform, key.bucket, key.dueMs, there⟩

/-- A player is queued once. -/
theorem Tables.Paired.queued_unique (paired : tables.Paired) (one : tables.Queued pid task)
    (two : tables.Queued pid other) : task = other := by
  obtain ⟨platform, bucket, dueMs, here⟩ := one
  obtain ⟨platform', bucket', dueMs', there⟩ := two
  have same := paired.indexed _ _ _ _ _ here
  rw [paired.indexed _ _ _ _ _ there, Option.some.injEq, FrontierKey.mk.injEq] at same
  obtain ⟨rfl, rfl, rfl⟩ := same
  rw [there, Option.some.injEq] at here
  exact here.symm

end Queued

section Pushes

variable {allowed allowed' : Nat → FrontierTask → Prop} {first second third : Tables}

/-- An unchanged frontier has kept and added nothing. -/
theorem Pushes.of_frontier (same : second.frontier = first.frontier) :
    Pushes allowed first second :=
  ⟨fun _ _ here => (queued_congr same).mpr here, fun _ _ here => .inl ((queued_congr same).mp here)⟩

/-- Two pushes, one after the other. -/
theorem Pushes.trans (one : Pushes allowed first second) (two : Pushes allowed second third) :
    Pushes allowed first third where
  kept pid task here := two.kept pid task (one.kept pid task here)
  added pid task here := by
    rcases two.added pid task here with middle | ⟨none, new⟩
    · exact one.added pid task middle
    · exact .inr ⟨fun other there => none other (one.kept pid other there), new⟩

/-- What may be pushed may be more. -/
theorem Pushes.mono (pushes : Pushes allowed first second)
    (included : ∀ pid task, allowed pid task → allowed' pid task) :
    Pushes allowed' first second where
  kept := pushes.kept
  added pid task here := (pushes.added pid task here).imp_right
    (And.imp_right (included pid task))

end Pushes

/-! ## Pushes -/

section Push

variable {tables : Tables} (platform : String) (dueMs : Nat)

/-- Whoever is queued is queued in the first bucket. -/
theorem Tables.Orderly.queued_bucket (orderly : tables.Orderly) (pid : Nat) :
    queued bucketPriority (tables.frontierIdx.get pid) = (tables.frontierIdx.get pid).isSome := by
  cases found : tables.frontierIdx.get pid with
  | none => rfl
  | some key => simp [queued, orderly.priority pid key found]

/-- A push, on tables in order. -/
theorem Tables.Orderly.pushed (orderly : tables.Orderly) (item : Nat × FrontierTask) :
    (tables.pushed platform bucketPriority dueMs item).Orderly ∧
      Pushes (fun pid task => (pid, task) = item) tables
        (tables.pushed platform bucketPriority dueMs item) ∧
      ∃ task, (tables.pushed platform bucketPriority dueMs item).Queued item.1 task := by
  have paired := orderly.paired.pushed platform bucketPriority dueMs (.inl rfl) item
  unfold Tables.pushed at paired ⊢
  rw [orderly.queued_bucket] at paired ⊢
  split
  · next waits =>
      exact ⟨orderly, .of_frontier rfl, orderly.paired.queued_iff.mpr waits⟩
  · next absent =>
      rw [if_neg absent] at paired
      have placed := orderly.paired.move item.1 ⟨platform, bucketPriority, dueMs⟩ item.2
      have waits : Waits ((tables.dequeue item.1 (tables.frontierIdx.get item.1)).enqueue item.1
          ⟨platform, bucketPriority, dueMs⟩ item.2) item.1 ⟨platform, bucketPriority, dueMs⟩
          item.2 := ⟨placed.index, placed.tasks⟩
      have none : ∀ other, ¬ tables.Queued item.1 other := fun other here =>
        absent (orderly.paired.queued_iff.mp ⟨other, here⟩)
      refine ⟨⟨paired, fun pid key here => ?_⟩, ⟨fun pid task here => ?_, fun pid task here => ?_⟩,
        item.2, waits.queued⟩
      · by_cases same : pid = item.1
        · rw [same, placed.index, Option.some.injEq] at here
          rw [← here]
        · rw [(placed.others pid same).1] at here
          exact orderly.priority pid key here
      · have different : pid ≠ item.1 := fun same => none task (same ▸ here)
        exact (SameRows.queued_iff (placed.others pid different)).mpr here
      · by_cases same : pid = item.1
        · subst same
          rw [waits.eq here]
          exact .inr ⟨none, rfl⟩
        · exact .inl ((SameRows.queued_iff (placed.others pid same)).mp here)

/-- A push changes the frontier and its index only. -/
theorem Tables.pushed_rest (bucket : Nat) (tables : Tables) (item : Nat × FrontierTask) :
    ∃ frontier frontierIdx, tables.pushed platform bucket dueMs item =
      { tables with frontier := frontier, frontierIdx := frontierIdx } := by
  unfold Tables.pushed
  split
  · exact ⟨_, _, rfl⟩
  · cases tables.frontierIdx.get item.1 with
    | none => exact ⟨_, _, rfl⟩
    | some key => exact ⟨_, _, rfl⟩

/-- Pushes change the queue and its index alone. -/
theorem Tables.pushedAll_rest (bucket : Nat) (items : List (Nat × FrontierTask)) (tables : Tables) :
    ∃ frontier frontierIdx, items.foldl (Tables.pushed platform bucket dueMs) tables =
      { tables with frontier := frontier, frontierIdx := frontierIdx } := by
  induction items generalizing tables with
  | nil => exact ⟨_, _, rfl⟩
  | cons item items ih =>
      obtain ⟨_, _, first⟩ := Tables.pushed_rest platform dueMs bucket tables item
      obtain ⟨frontier, frontierIdx, rest⟩ := ih (tables.pushed platform bucket dueMs item)
      exact ⟨frontier, frontierIdx, by rw [List.foldl_cons, rest, first]⟩

/-- The pushes of a batch keep the tables in order and queue only what the batch has. -/
theorem Tables.Orderly.pushedAll (orderly : tables.Orderly) (items : List (Nat × FrontierTask)) :
    (items.foldl (Tables.pushed platform bucketPriority dueMs) tables).Orderly ∧
      Pushes (fun pid task => (pid, task) ∈ items) tables
        (items.foldl (Tables.pushed platform bucketPriority dueMs) tables) := by
  induction items generalizing tables with
  | nil => exact ⟨orderly, .of_frontier rfl⟩
  | cons item items ih =>
      obtain ⟨first, pushes, -⟩ := orderly.pushed platform dueMs item
      obtain ⟨last, pushes'⟩ := ih first
      refine ⟨last, (pushes.mono fun pid task same => ?_).trans (pushes'.mono fun pid task inside =>
        List.mem_cons_of_mem _ inside)⟩
      rw [same]
      exact List.mem_cons_self

/-- **A push** queues its player, and nobody else. -/
theorem frontierPush_pushes {state : State} (orderly : state.tables.Orderly) (pid : Nat)
    (task : FrontierTask) :
    ∃ after, Ends (frontierPush platform bucketPriority dueMs pid task) state () after ∧
      OnlyFrontier state after ∧ after.tables.Orderly ∧
      Pushes (fun other given => other = pid ∧ given = task) state.tables after.tables ∧
      ∃ held, after.tables.Queued pid held := by
  obtain ⟨after, pushes, held⟩ := orderly.pushed platform dueMs (pid, task)
  exact ⟨_, frontierPush_ends platform bucketPriority dueMs pid task state,
    ⟨rfl, rfl, Tables.pushed_rest platform dueMs _ _ _⟩, after,
    pushes.mono fun _ _ same => Prod.mk.inj same, held⟩

/-- A batch pushes its tasks, and changes nothing but the frontier. -/
theorem frontierPushBatch_pushes {state : State} (orderly : state.tables.Orderly)
    (items : List (Nat × FrontierTask)) :
    ∃ after, Ends (frontierPushBatch platform bucketPriority dueMs items) state () after ∧
      OnlyFrontier state after ∧ after.tables.Orderly ∧
      Pushes (fun pid task => (pid, task) ∈ items) state.tables after.tables := by
  obtain ⟨after, pushes⟩ := orderly.pushedAll platform dueMs items
  obtain ⟨_, ends⟩ := frontierPushBatch_ends platform bucketPriority dueMs items state
  exact ⟨_, ends, ⟨rfl, rfl, Tables.pushedAll_rest platform dueMs _ items _⟩, after, pushes⟩

end Push

/-! ## Pops, resets and the reconciliation -/

section Reset

variable {state : State}

/-- **A pop.** A player who is popped was waiting with the task, and no longer is. -/
theorem frontierPopDue_pops {next : State} {platform : String} {nowMs : Nat}
    {result : Option (Nat × Nat × FrontierTask)} (orderly : state.tables.Orderly)
    (ends : Ends (frontierPopDue platform nowMs) state result next) :
    OnlyFrontier state next ∧ next.tables.Orderly ∧
      (∀ bucket pid task, result = some (bucket, pid, task) → state.tables.Queued pid task) ∧
      (∀ pid task, next.tables.Queued pid task → state.tables.Queued pid task) ∧
      ∀ pid task, state.tables.Queued pid task →
        next.tables.Queued pid task ∨ ∃ bucket, result = some (bucket, pid, task) := by
  obtain ⟨found, after, popped, least⟩ := frontierPopDue_ends platform nowMs state orderly.paired
  obtain ⟨rfl, rfl⟩ := ends.unique popped
  have paired := least.paired orderly.paired
  cases result with
  | none =>
      have same := least.unchanged rfl
      subst same
      exact ⟨⟨rfl, rfl, _, _, rfl⟩, orderly, nofun, fun _ _ here => here,
        fun _ _ here => .inl here⟩
  | some entry =>
      obtain ⟨bucket, pid, task⟩ := entry
      obtain ⟨dueMs, -, there, rfl, -⟩ := least.least bucket pid task rfl
      have rows : ∀ other held,
        (state.tables.popped ⟨platform, bucket, dueMs⟩ pid).Queued other held →
          state.tables.Queued other held := by
        rintro other held ⟨platform', bucket', dueMs', here⟩
        simp only [Tables.popped, Table.get_remove] at here
        split at here
        · cases here
        · exact ⟨platform', bucket', dueMs', here⟩
      refine ⟨⟨rfl, rfl, _, _, rfl⟩, ⟨paired, fun other key here => ?_⟩, ?_, rows,
        fun other held here => ?_⟩
      · have index : (state.tables.popped ⟨platform, bucket, dueMs⟩ pid).frontierIdx.get other =
            some key := here
        simp only [Tables.popped, Table.get_remove] at index
        split at index
        · cases index
        · exact orderly.priority other key index
      · rintro _ _ _ ⟨rfl⟩
        exact ⟨platform, bucket, dueMs, there⟩
      · by_cases same : other = pid
        · subst same
          have equal := orderly.paired.queued_unique here ⟨platform, bucket, dueMs, there⟩
          exact .inr ⟨bucket, by rw [equal]⟩
        · obtain ⟨platform', bucket', dueMs', here⟩ := here
          refine .inl ⟨platform', bucket', dueMs', ?_⟩
          show (state.tables.popped ⟨platform, bucket, dueMs⟩ pid).frontier.get _ = _
          simp only [Tables.popped, Table.get_remove]
          rw [if_neg]
          · exact here
          · intro keys
            exact same (Prod.mk.inj (Prod.mk.inj (Prod.mk.inj keys).2).2).2

/-- **The reset.** The tasks of cohort members are deep after it, and the others as before. -/
theorem frontierBackfillReset_queued {next : State} {nowMs count : Nat}
    (orderly : state.tables.Orderly)
    (ends : Ends (frontierBackfillReset nowMs) state count next) :
    OnlyFrontier state next ∧ next.tables.Orderly ∧
      (∀ pid, (∃ task, state.tables.Queued pid task) → ∃ task, next.tables.Queued pid task) ∧
      ∀ pid task, next.tables.Queued pid task →
        pid ∈ state.ram.cohort ∧ task.lastVisitMs = deepVisitMs ∨
          pid ∉ state.ram.cohort ∧ state.tables.Queued pid task := by
  obtain ⟨_, after, reset, paired, deepens⟩ := frontierBackfillReset_ends nowMs state orderly.paired
  obtain ⟨-, rfl⟩ := ends.unique reset
  have rows : ∀ pid, (∃ platform task, pid ∈ state.ram.cohort ∧
        Waits after pid ⟨platform, bucketPriority, nowMs⟩ task ∧ task.lastVisitMs = deepVisitMs) ∨
      SameRows state.tables after pid ∧
        (pid ∈ state.ram.cohort → ∀ task, ¬ state.tables.Queued pid task) := by
    intro pid
    by_cases member : pid ∈ state.ram.cohort
    · cases found : state.tables.frontierIdx.get pid with
      | some key =>
          obtain ⟨task, there⟩ := orderly.paired.waiting pid key found
          rw [orderly.priority pid key found] at there
          exact .inl ⟨_, _, member, deepens.converted _ _ _ _ member there, rfl⟩
      | none =>
          have none : ∀ task, ¬ state.tables.Queued pid task := by
            intro task here
            have waits := orderly.paired.queued_iff.mp ⟨task, here⟩
            rw [found] at waits
            cases waits
          refine .inr ⟨deepens.kept pid (.inr fun platform dueMs => ?_), fun _ => none⟩
          rw [Option.eq_none_iff_forall_ne_some]
          exact fun task here => none task ⟨_, _, _, here⟩
    · exact .inr ⟨deepens.kept pid (.inl member), fun inside => (member inside).elim⟩
  refine ⟨⟨rfl, rfl, deepens.rest⟩, ⟨paired, fun pid key here => ?_⟩, fun pid held => ?_,
    fun pid task here => ?_⟩
  · rcases rows pid with ⟨platform, task, -, waits, -⟩ | ⟨same, -⟩
    · have index : after.frontierIdx.get pid = some key := here
      rw [waits.1, Option.some.injEq] at index
      rw [← index]
    · have index : after.frontierIdx.get pid = some key := here
      rw [same.1] at index
      exact orderly.priority pid key index
  · rcases rows pid with ⟨_, task, -, waits, -⟩ | ⟨same, -⟩
    · exact ⟨task, waits.queued⟩
    · obtain ⟨task, held⟩ := held
      exact ⟨task, same.queued_iff.mpr held⟩
  · rcases rows pid with ⟨_, held, member, waits, deep⟩ | ⟨same, none⟩
    · rw [waits.eq here]
      exact .inl ⟨member, deep⟩
    · have before := same.queued_iff.mp here
      exact .inr ⟨fun member => none member task before, before⟩

/-- A player who is queued again counts as unvisited. -/
theorem requeued_unvisited {platforms : List String} {ram : Ram} {tables : Tables} {pid : Nat}
    {item : String × Nat × FrontierTask} (found : requeued platforms ram tables pid = some item) :
    item.2.2.lastVisitMs = 0 := by
  simp only [requeued, Option.bind_eq_bind, Option.bind_eq_some_iff] at found
  obtain ⟨_, _, _, _, _, _, same⟩ := found
  cases same
  rfl

/-- The stranded are pushed as unvisited. -/
theorem pushStranded_pushes (nowMs : Nat) {items : List (String × Nat × FrontierTask)}
    (unvisited : ∀ item ∈ items, item.2.2.lastVisitMs = 0) (platforms : List String)
    {state : State} (orderly : state.tables.Orderly) :
    ∃ after, Ends (pushStranded nowMs items platforms) state () after ∧
      OnlyFrontier state after ∧ after.tables.Orderly ∧
      Pushes (fun _ task => task.lastVisitMs = 0) state.tables after.tables := by
  induction platforms generalizing state with
  | nil => exact ⟨state, rfl, .refl _, orderly, .of_frontier rfl⟩
  | cons platform platforms ih =>
      obtain ⟨middle, pushed, only, first, pushes⟩ :=
        frontierPushBatch_pushes platform nowMs orderly
        ((items.filter fun item => item.1 = platform).map Prod.snd)
      obtain ⟨after, rest, only', last, pushes'⟩ := ih first
      refine ⟨after, pushed.bind rest, only.trans only', last,
        (pushes.mono fun pid task inside => ?_).trans pushes'⟩
      obtain ⟨item, inside, same⟩ := List.mem_map.mp inside
      rw [show task = item.2.2 by rw [same]]
      exact unvisited item (List.mem_of_mem_filter inside)

/-- **The reconciliation** keeps the tables in order and pushes only tasks that were never
visited. -/
theorem frontierReconcile_pushes {next : State} {platforms : List String} {nowMs count : Nat}
    (orderly : state.tables.Orderly)
    (ends : Ends (frontierReconcile platforms nowMs) state count next) :
    OnlyFrontier state next ∧ next.tables.Orderly ∧
      Pushes (fun _ task => task.lastVisitMs = 0) state.tables next.tables := by
  let items := state.tables.stranded.filterMap (requeued platforms state.ram state.tables)
  have unvisited : ∀ item ∈ items, item.2.2.lastVisitMs = 0 := by
    intro item inside
    obtain ⟨pid, -, found⟩ := List.mem_filterMap.mp inside
    exact requeued_unvisited found
  obtain ⟨after, pushed, only, last, pushes⟩ := pushStranded_pushes nowMs unvisited platforms
    orderly
  by_cases none : state.tables.stranded.isEmpty
  · rw [(ends.unique (frontierReconcile_idle none platforms nowMs)).2]
    exact ⟨.refl _, orderly, .of_frontier rfl⟩
  · rw [(ends.unique (frontierReconcile_pushed none pushed)).2]
    exact ⟨only, last, pushes⟩

end Reset

end LolCrawler.Store
