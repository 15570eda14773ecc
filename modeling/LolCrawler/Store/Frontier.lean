import LolCrawler.Store.Match

/-! # The crawl frontier

Tasks wait under platform, bucket, due time and player; an index gives each
player's key. All transactions here are fast ones.
-/

namespace LolCrawler.Store

open Foundation Prog

/-- The player waits in the same bucket or a better one. -/
def queued (bucket : Nat) : Option FrontierKey → Bool
  | none => false
  | some existing => existing.bucket ≤ bucket

/-- The old key of a player goes. -/
def removeTask (pid : Nat) : Option FrontierKey → Act Unit
  | none => pure ()
  | some existing =>
      change .frontier (.remove .frontier) fun tables =>
        { tables with
          frontier := tables.frontier.remove
            (existing.platform, existing.bucket, existing.dueMs, pid) }

/-- A task and its key. -/
def insertTask (platform : String) (bucket dueMs pid : Nat) (task : FrontierTask) : Act Unit := do
  change .frontier (.insert .frontier) fun tables =>
    { tables with frontier := tables.frontier.insert (platform, bucket, dueMs, pid) task }
  change .frontier (.insert .frontierIdx) fun tables =>
    { tables with frontierIdx := tables.frontierIdx.insert pid ⟨platform, bucket, dueMs⟩ }

def existingKey (pid : Nat) : Act (Option FrontierKey) :=
  ask (.txn .frontier (.get .frontierIdx)) fun state => state.working.frontierIdx.get pid

def frontierPush (platform : String) (bucket dueMs pid : Nat) (task : FrontierTask) : Act Unit := do
  beginWrite .frontier
  touch .frontier (.openTable .frontierIdx)
  touch .frontier (.openTable .frontier)
  let existing ← existingKey pid
  -- The source returns here without a commit.
  if queued bucket existing then pure ()
  else do
    removeTask pid existing
    insertTask platform bucket dueMs pid task
    commitFast .frontier

/-- The tasks of a batch, one by one. -/
def pushTasks (platform : String) (bucket dueMs : Nat) : List (Nat × FrontierTask) → Act Unit
  | [] => pure ()
  | (pid, task) :: items => do
      let existing ← existingKey pid
      if queued bucket existing then pushTasks platform bucket dueMs items
      else do
        removeTask pid existing
        insertTask platform bucket dueMs pid task
        pushTasks platform bucket dueMs items

def frontierPushBatch (platform : String) (bucket dueMs : Nat) (items : List (Nat × FrontierTask)) :
    Act Unit :=
  if items.isEmpty then pure ()
  else do
    beginWrite .frontier
    touch .frontier (.openTable .frontierIdx)
    touch .frontier (.openTable .frontier)
    pushTasks platform bucket dueMs items
    commitFast .frontier

/-- The order of the keys: platform, bucket, due time, player. -/
def keyLe (first second : String × Nat × Nat × Nat) : Bool :=
  first.1 < second.1 || first.1 = second.1 &&
    (first.2.1 < second.2.1 || first.2.1 = second.2.1 &&
      (first.2.2.1 < second.2.2.1 || first.2.2.1 = second.2.2.1 && first.2.2.2 ≤ second.2.2.2))

/-- The frontier in order. -/
def Tables.tasks (tables : Tables) : List ((String × Nat × Nat × Nat) × FrontierTask) :=
  tables.frontier.entries.insertionSort fun first second => keyLe first.1 second.1

/-- The due tasks of a bucket, earliest first. -/
def Tables.due (tables : Tables) (platform : String) (bucket nowMs : Nat) :
    List ((String × Nat × Nat × Nat) × FrontierTask) :=
  tables.tasks.filter fun entry =>
    entry.1.1 = platform && entry.1.2.1 = bucket && entry.1.2.2.1 ≤ nowMs

/-- The first due task of the first bucket that has one. -/
def popBuckets (platform : String) (nowMs : Nat) :
    List Nat → Act (Option (Nat × Nat × FrontierTask))
  | [] => pure none
  | bucket :: buckets => do
      touch .frontier (.range .frontier)
      touch .frontier (.next .frontier)
      match ← gets fun state => (state.working.due platform bucket nowMs).head? with
      | none => popBuckets platform nowMs buckets
      | some ((_, bucket, dueMs, pid), task) => do
          change .frontier (.remove .frontier) fun tables =>
            { tables with frontier := tables.frontier.remove (platform, bucket, dueMs, pid) }
          change .frontier (.remove .frontierIdx) fun tables =>
            { tables with frontierIdx := tables.frontierIdx.remove pid }
          pure (some (bucket, pid, task))

def frontierPopDue (platform : String) (nowMs : Nat) : Act (Option (Nat × Nat × FrontierTask)) := do
  beginWrite .frontier
  touch .frontier (.openTable .frontier)
  touch .frontier (.openTable .frontierIdx)
  let popped ← popBuckets platform nowMs [bucketPriority, bucketOther]
  commitFast .frontier
  pure popped

/-! ## At startup -/

/-- Cohort members without a frontier entry. -/
def Tables.stranded (tables : Tables) : List Nat :=
  ((tables.cohort.entries.map Prod.fst).insertionSort (· ≤ ·)).filter fun pid =>
    (tables.frontierIdx.get pid).isNone

/-- The platform and the task of a stranded member. The platform is the first that has the
player's latest game; a member without a player row, a game or a platform is passed over. -/
def requeued (platforms : List String) (ram : Ram) (tables : Tables) (pid : Nat) :
    Option (String × Nat × FrontierTask) := do
  let player ← ram.players.entries.find? fun entry => entry.2 = pid
  let last ← (tables.timeline pid fun _ => true).getLast?
  let platform ← platforms.find? fun platform => (tables.progress.get (platform, last.2.1)).isSome
  pure (platform, pid, ⟨player.1, 0⟩)

/-- One batch for each platform. -/
def pushStranded (nowMs : Nat) (items : List (String × Nat × FrontierTask)) : List String → Act Unit
  | [] => pure ()
  | platform :: platforms => do
      frontierPushBatch platform bucketPriority nowMs
        ((items.filter fun item => item.1 = platform).map Prod.snd)
      pushStranded nowMs items platforms

/-- `frontier_reconcile`. Its two read transactions see the same tables. -/
def frontierReconcile (platforms : List String) (nowMs : Nat) : Act Nat := do
  touch .frontier .begin
  touch .frontier (.openTable .frontierIdx)
  touch .frontier (.openTable .cohort)
  let stranded ← ask (.txn .frontier (.next .cohort)) fun state => state.tables.stranded
  if stranded.isEmpty then pure 0
  else do
    touch .frontier .begin
    touch .frontier (.openTable .playerTl)
    touch .frontier (.openTable .progress)
    let items ← ask (.txn .frontier (.range .playerTl)) fun state =>
      stranded.filterMap (requeued platforms state.ram state.tables)
    pushStranded nowMs items platforms
    pure items.length

/-- The tasks that `backfill` converts. -/
def Tables.priorityTasks (tables : Tables) (cohort : Finset Nat) :
    List ((String × Nat × Nat × Nat) × FrontierTask) :=
  tables.tasks.filter fun entry => entry.1.2.1 = bucketPriority && entry.1.2.2.2 ∈ cohort

/-- Tasks become deep visits that are due now. -/
def deepen (nowMs : Nat) : List ((String × Nat × Nat × Nat) × FrontierTask) → Act Unit
  | [] => pure ()
  | ((platform, _, dueMs, pid), task) :: entries => do
      change .frontier (.remove .frontier) fun tables =>
        { tables with frontier := tables.frontier.remove (platform, bucketPriority, dueMs, pid) }
      insertTask platform bucketPriority nowMs pid ⟨task.puuid, deepVisitMs⟩
      deepen nowMs entries

def frontierBackfillReset (nowMs : Nat) : Act Nat := do
  touch .frontier .begin
  touch .frontier (.openTable .frontier)
  let entries ← ask (.txn .frontier (.next .frontier)) fun state =>
    state.tables.priorityTasks state.ram.cohort
  beginWrite .frontier
  touch .frontier (.openTable .frontier)
  touch .frontier (.openTable .frontierIdx)
  deepen nowMs entries
  commitFast .frontier
  pure entries.length

end LolCrawler.Store
