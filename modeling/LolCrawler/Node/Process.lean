import Mathlib.Data.Finset.Card
import Mathlib.Data.Finset.Range
import LolCrawler.Node.Keys
import LolCrawler.Node.Outcomes

/-! # A process of the node

`run` polls the server for jobs and spawns a task for each. A task calls `execute`, takes its
job off the count of its host, and puts the result on a channel. The uploader takes the
results off the channel one by one and posts each until the server has it, or gives up.

Once the loop is left the process ends when the uploader is done, or after 15 s with what is left
of it. It can be killed at any time.

The loop, the tasks and the uploader interleave in any order. What the server answers is an
argument of the event. The count of a host is the number of the tasks for it that run
(`Tracked.counts`).
-/

namespace LolCrawler.Node

open Foundation

/-- A job, and a history: the life of the server that handed it out. -/
structure Received where
  job : Job
  life : Nat
deriving DecidableEq

/-- Where the loop of `run` is. -/
inductive Stage where
  /-- At the head of the loop, or in one of its sleeps. -/
  | head
  /-- The key is not rejected, so the next thing is a poll. -/
  | ready
  | polling (pending : String → Nat)
  /-- These jobs of the reply are yet to be spawned. -/
  | spawning (jobs : List Received)
  /-- The loop is over since then, and the uploads are drained. -/
  | left (since : Nat)
  /-- There is no process any more. What it held is as it was, as history. -/
  | ended

/-- Where the task of a job is. -/
inductive Task where
  | running
  /-- `execute` has returned, and the job is off the count. -/
  | counted
  /-- The result is on the channel. -/
  | sent
deriving DecidableEq

/-- The loop of the uploader on one result. -/
structure Upload where
  task : Nat
  result : JobResult
  delay : Nat
  waited : Nat
  /-- When the sleep ends; a request is under way otherwise. -/
  asleep : Option Nat
  /-- The sleeps so far, and when the loop began and last looked at the clock: history. -/
  sleeps : Nat
  since : Nat
  clock : Nat
deriving DecidableEq

/-- How the uploader was done with a result. -/
inductive Finish where
  | acknowledged
  /-- The server speaks another version of the protocol. -/
  | refused
  | dropped (upload : Upload) (now : Nat)
deriving DecidableEq

/-- `endings`, `spawned` and `finished` are history: how the requests of a call ended, the jobs by
the number of their task, and what became of their results. -/
structure Process where
  worker : Worker
  stage : Stage
  inflight : String → Nat
  tasks : Nat → Task
  channel : List (Nat × JobResult)
  upload : Option Upload
  endings : Nat → List Ending
  spawned : List Received
  finished : List (Nat × Finish)

inductive ProcessEvent where
  /-- `key_bad` is read at the head of the loop. -/
  | look
  | wake (mtime : Option Nat) (fresh : Option String)
  | installed
  | poll
  | reply (jobs : List Received)
  | pollFailed
  /-- The process is to stop, or the server speaks another version of the protocol. -/
  | leave (now : Nat)
  /-- `run` returns, and the process ends. If a frontend goes on, so does the uploader. -/
  | exit (now : Nat)
  | killed
  /-- The next job of the reply. -/
  | spawn
  /-- All jobs of the reply are spawned. -/
  | pace
  | call (id now : Nat) (act : Act)
  | count (id : Nat)
  | send (id : Nat)
  /-- The uploader takes the next result and posts it. -/
  | takeUp (now : Nat)
  | posted
  | postRefused
  | postFailed (now : Nat)
  /-- The uploader posts again after its sleep. -/
  | repost (now : Nat)

/-- The result of a call that has returned. -/
def Phase.result : Phase → Option JobResult
  | .returned result => some result
  | _ => none

namespace Process

def new (key : String) (keyMtime : Option Nat) : Process where
  worker := .new key keyMtime
  stage := .head
  inflight _ := 0
  tasks _ := .running
  channel := []
  upload := none
  endings _ := []
  spawned := []
  finished := []

def journal (process : Process) : Journal := ⟨process.worker.executor, process.endings⟩

/-- What the call of a task has returned. -/
def returned (process : Process) (id : Nat) : Option JobResult :=
  (process.worker.executor.calls id).bind fun call => call.phase.result

/-- A step of the loop at its head. -/
def atHead (process : Process) (event : WorkerEvent) (stage : Worker → Stage) : Option Process :=
  match process.stage with
  | .head => (process.worker.step event).map fun worker =>
      { process with worker := worker, stage := stage worker }
  | _ => none

/-- One round of `for job in resp.jobs`. -/
def spawn (process : Process) : Option Process :=
  match process.stage with
  | .spawning (received :: rest) =>
      let id := process.spawned.length
      let host := received.job.host
      (process.worker.step (.executor (.execute id received.job))).map fun worker =>
        { process with
          worker := worker
          stage := .spawning rest
          inflight := Function.update process.inflight host (process.inflight host + 1)
          tasks := Function.update process.tasks id .running
          spawned := process.spawned ++ [received] }
  | _ => none

/-- `*n = n.saturating_sub(1)` once `execute` has returned. -/
def count (process : Process) (id : Nat) : Option Process :=
  match process.worker.executor.calls id, process.returned id, process.tasks id with
  | some call, some _, .running =>
      let host := call.job.host
      some { process with
        inflight := Function.update process.inflight host (process.inflight host - 1)
        tasks := Function.update process.tasks id .counted }
  | _, _, _ => none

/-- `tx.send(res)`. -/
def send (process : Process) (id : Nat) : Option Process :=
  match process.returned id, process.tasks id with
  | some result, .counted =>
      some { process with
        tasks := Function.update process.tasks id .sent
        channel := process.channel ++ [(id, result)] }
  | _, _ => none

/-- `result_rx.recv()`, and the first request. -/
def takeUp (process : Process) (now : Nat) : Option Process :=
  match process.upload, process.channel with
  | none, (id, result) :: rest =>
      some { process with
        channel := rest
        upload := some ⟨id, result, 1, 0, none, 0, now, now⟩ }
  | _, _ => none

/-- The uploader is done with its result. -/
def finish (process : Process) (upload : Upload) (ending : Finish) : Process :=
  { process with upload := none, finished := process.finished ++ [(upload.task, ending)] }

/-- The request of the uploader has ended. -/
def answered (process : Process) (after : Upload → Option Process) : Option Process :=
  match process.upload with
  | some upload => if upload.asleep = none then after upload else none
  | none => none

def postFailed (process : Process) (now : Nat) : Option Process :=
  process.answered fun upload =>
    if upload.clock ≤ now then
      if 300 ≤ upload.waited then some (process.finish upload (.dropped upload now))
      else some { process with
        upload := some { upload with asleep := some (now + fromSecs upload.delay), clock := now } }
    else none

def repost (process : Process) (now : Nat) : Option Process :=
  match process.upload with
  | some upload =>
      match upload.asleep with
      | some wake =>
          if wake ≤ now then
            some { process with
              upload := some { upload with
                waited := upload.waited + upload.delay
                delay := min (upload.delay * 2) 30
                asleep := none
                sleeps := upload.sleeps + 1
                clock := now } }
          else none
      | none => none
  | none => none

/-- The uploader is done: the tasks have dropped their senders, and no result is left. -/
def drained (process : Process) : Bool :=
  process.upload.isNone && process.channel.isEmpty &&
    (List.range process.spawned.length).all fun id => process.tasks id = .sent

/-- `run` returns once the uploader is done, or after 15 s. -/
def exit (process : Process) (now : Nat) : Option Process :=
  match process.stage with
  | .left since =>
      if process.drained || since + fromSecs 15 ≤ now then some { process with stage := .ended }
      else none
  | _ => none

/-- What a process does that is there. -/
def act (process : Process) : ProcessEvent → Option Process
  | .look => process.atHead .look fun worker => if worker.loop = .working then .ready else .head
  | .wake mtime fresh => process.atHead (.wake mtime fresh) fun _ => .head
  | .installed => process.atHead .installed fun _ => .head
  | .poll =>
      match process.stage with
      | .ready => some { process with stage := .polling process.inflight }
      | _ => none
  | .reply jobs =>
      match process.stage with
      | .polling _ => some { process with stage := .spawning jobs }
      | _ => none
  | .pollFailed =>
      match process.stage with
      | .polling _ => some { process with stage := .head }
      | _ => none
  | .leave now =>
      match process.stage with
      | .head | .polling _ => some { process with stage := .left now }
      | _ => none
  | .exit now => process.exit now
  | .killed => some { process with stage := .ended }
  | .spawn => process.spawn
  | .pace =>
      match process.stage with
      | .spawning [] => some { process with stage := .head }
      | _ => none
  | .call id now act =>
      (process.worker.step (.executor (.call id now act))).map fun worker =>
        { process with worker := worker, endings := noted process.endings (.call id now act) }
  | .count id => process.count id
  | .send id => process.send id
  | .takeUp now => process.takeUp now
  | .posted => process.answered fun upload => some (process.finish upload .acknowledged)
  | .postRefused => process.answered fun upload => some (process.finish upload .refused)
  | .postFailed now => process.postFailed now
  | .repost now => process.repost now

def step (process : Process) (event : ProcessEvent) : Option Process :=
  match process.stage with
  | .ended => none
  | _ => process.act event

end Process

def ProcessStep (process : Process) (event : ProcessEvent) (next : Process) : Prop :=
  process.step event = some next

/-- A process that has ended takes no step. -/
theorem ProcessStep.acts {process next : Process} {event : ProcessEvent}
    (step : ProcessStep process event next) :
    process.act event = some next ∧ process.stage ≠ .ended := by
  rw [ProcessStep, Process.step] at step
  split at step
  · cases step
  · next there => exact ⟨step, there⟩

/-! ## What a step does to the tasks -/

/-- The tasks and their calls are as they were. -/
structure SameTasks (process next : Process) : Prop where
  calls : next.worker.executor.calls = process.worker.executor.calls
  endings : next.endings = process.endings
  inflight : next.inflight = process.inflight
  tasks : next.tasks = process.tasks
  spawned : next.spawned = process.spawned

/-- What a step does to the tasks, with what it relies on. -/
inductive TaskMove (process next : Process) : Prop where
  | idle (same : SameTasks process next)
  | spawn (received : Received) (rest : List Received)
      (stage : process.stage = .spawning (received :: rest))
      (free : process.worker.executor.calls process.spawned.length = none)
      (calls : next.worker.executor.calls = Function.update process.worker.executor.calls
        process.spawned.length (some (.new received.job)))
      (endings : next.endings = process.endings)
      (inflight : next.inflight = Function.update process.inflight received.job.host
        (process.inflight received.job.host + 1))
      (tasks : next.tasks = Function.update process.tasks process.spawned.length .running)
      (spawned : next.spawned = process.spawned ++ [received])
  | call (id now : Nat) (act : Act) (call : Call)
      (there : process.worker.executor.calls id = some call)
      (done : { process.worker.executor with clock := now }.advance id now call act =
        some next.worker.executor)
      (endings : next.endings = noted process.endings (.call id now act))
      (inflight : next.inflight = process.inflight) (tasks : next.tasks = process.tasks)
      (spawned : next.spawned = process.spawned)
  | count (id : Nat) (call : Call) (there : process.worker.executor.calls id = some call)
      (running : process.tasks id = .running) (result : JobResult)
      (returned : process.returned id = some result)
      (worker : next.worker = process.worker) (endings : next.endings = process.endings)
      (inflight : next.inflight = Function.update process.inflight call.job.host
        (process.inflight call.job.host - 1))
      (tasks : next.tasks = Function.update process.tasks id .counted)
      (spawned : next.spawned = process.spawned)
  | send (id : Nat) (counted : process.tasks id = .counted) (result : JobResult)
      (returned : process.returned id = some result)
      (worker : next.worker = process.worker) (endings : next.endings = process.endings)
      (inflight : next.inflight = process.inflight)
      (tasks : next.tasks = Function.update process.tasks id .sent)
      (spawned : next.spawned = process.spawned)

section Steps

variable {process next : Process} {event : ProcessEvent}

/-- Reading the flag and replacing the key leave the calls as they are. -/
theorem Worker.step_calls {worker later : Worker} {event : WorkerEvent}
    (step : worker.step event = some later) (loop : ∀ inner, event ≠ .executor inner) :
    later.executor.calls = worker.executor.calls := by
  cases event with
  | executor inner => exact absurd rfl (loop inner)
  | look =>
      rw [Worker.step] at step
      split at step
      · cases step
        rfl
      · cases step
  | wake mtime fresh =>
      rw [Worker.step] at step
      split at step
      · split at step
        · cases step
          rfl
        · cases fresh with
          | none =>
              cases step
              rfl
          | some key =>
              cases step
              rfl
      · cases step
  | installed =>
      rw [Worker.step] at step
      split at step
      · obtain ⟨executor, done, rfl⟩ := Option.map_eq_some_iff.mp step
        rw [Executor.step] at done
        split at done
        · cases done
          rfl
        · cases done
      · cases step

/-- A step of the loop leaves the tasks alone. -/
theorem Process.atHead_same {event : WorkerEvent} {stage : Worker → Stage}
    (done : process.atHead event stage = some next) (loop : ∀ inner, event ≠ .executor inner) :
    SameTasks process next := by
  unfold Process.atHead at done
  split at done
  · obtain ⟨worker, step, rfl⟩ := Option.map_eq_some_iff.mp done
    exact ⟨Worker.step_calls step loop, rfl, rfl, rfl, rfl⟩
  · cases done

/-- A spawn adds a task. -/
theorem Process.spawn_move (done : process.spawn = some next) : TaskMove process next := by
  unfold Process.spawn at done
  split at done
  · next received rest stage =>
      obtain ⟨worker, step, rfl⟩ := Option.map_eq_some_iff.mp done
      obtain ⟨executor, made, rfl⟩ := Option.map_eq_some_iff.mp step
      rw [Executor.step] at made
      split at made
      · next free =>
          cases made
          exact .spawn received rest stage free rfl rfl rfl rfl rfl
      · cases made
  · cases done

/-- A step of a call moves its task. -/
theorem Process.call_move {id now : Nat} {act : Act}
    (done : process.act (.call id now act) = some next) : TaskMove process next := by
  obtain ⟨worker, step, rfl⟩ := Option.map_eq_some_iff.mp done
  obtain ⟨executor, made, rfl⟩ := Option.map_eq_some_iff.mp step
  rw [Executor.step] at made
  split at made
  · next call there =>
      split at made
      · exact .call id now act call there made rfl rfl rfl rfl
      · cases made
  · cases made

/-- An answer to the uploader leaves the tasks alone. -/
theorem Process.answered_same {after : Upload → Option Process}
    (done : process.answered after = some next)
    (same : ∀ upload later, after upload = some later → SameTasks process later) :
    SameTasks process next := by
  unfold Process.answered at done
  split at done
  · next upload _ =>
      split at done
      · exact same upload next done
      · cases done
  · cases done

/-- A post that failed leaves the tasks alone. -/
theorem Process.postFailed_same {now : Nat} (done : process.postFailed now = some next) :
    SameTasks process next := by
  refine Process.answered_same done fun upload later made => ?_
  split at made
  · split at made
    · cases made
      exact ⟨rfl, rfl, rfl, rfl, rfl⟩
    · cases made
      exact ⟨rfl, rfl, rfl, rfl, rfl⟩
  · cases made

/-- A post that is tried again leaves the tasks alone. -/
theorem Process.repost_same {now : Nat} (done : process.repost now = some next) :
    SameTasks process next := by
  unfold Process.repost at done
  split at done
  · split at done
    · split at done
      · cases done
        exact ⟨rfl, rfl, rfl, rfl, rfl⟩
      · cases done
    · cases done
  · cases done

/-- The process ends, and nothing else changes. -/
theorem Process.exit_eq {now : Nat} (done : process.exit now = some next) :
    next = { process with stage := .ended } := by
  unfold Process.exit at done
  split at done
  · split at done
    · cases done
      rfl
    · cases done
  · cases done

/-- Each step of a process moves its tasks in one of these ways. -/
theorem Process.step_tasks (step : ProcessStep process event next) : TaskMove process next := by
  obtain ⟨step, -⟩ := step.acts
  cases event with
  | look => exact .idle (Process.atHead_same step nofun)
  | wake mtime fresh => exact .idle (Process.atHead_same step nofun)
  | installed => exact .idle (Process.atHead_same step nofun)
  | spawn => exact Process.spawn_move step
  | call id now act => exact Process.call_move step
  | count id =>
      rw [Process.act, Process.count] at step
      split at step
      · next call result there returned running =>
          cases step
          exact .count id call there running result returned rfl rfl rfl rfl rfl
      · cases step
  | send id =>
      rw [Process.act, Process.send] at step
      split at step
      · next result returned counted =>
          cases step
          exact .send id counted result returned rfl rfl rfl rfl rfl
      · cases step
  | takeUp now =>
      rw [Process.act, Process.takeUp] at step
      split at step
      · cases step
        exact .idle ⟨rfl, rfl, rfl, rfl, rfl⟩
      · cases step
  | posted =>
      refine .idle (Process.answered_same step fun upload later made => ?_)
      cases made
      exact ⟨rfl, rfl, rfl, rfl, rfl⟩
  | postRefused =>
      refine .idle (Process.answered_same step fun upload later made => ?_)
      cases made
      exact ⟨rfl, rfl, rfl, rfl, rfl⟩
  | postFailed now => exact .idle (Process.postFailed_same step)
  | repost now => exact .idle (Process.repost_same step)
  | exit now =>
      rw [Process.exit_eq step]
      exact .idle ⟨rfl, rfl, rfl, rfl, rfl⟩
  | killed =>
      cases step
      exact .idle ⟨rfl, rfl, rfl, rfl, rfl⟩
  | leave now =>
      rw [Process.act] at step
      split at step
      · cases step
        exact .idle ⟨rfl, rfl, rfl, rfl, rfl⟩
      · cases step
        exact .idle ⟨rfl, rfl, rfl, rfl, rfl⟩
      · cases step
  | poll | reply jobs | pollFailed | pace =>
      rw [Process.act] at step
      split at step
      · cases step
        exact .idle ⟨rfl, rfl, rfl, rfl, rfl⟩
      · cases step

/-! ## The count of a host -/

/-- The tasks for a host that run. -/
def Process.running (process : Process) (host : String) : Finset Nat :=
  (Finset.range process.spawned.length).filter fun id =>
    process.tasks id = .running ∧ (process.spawned[id]?).any fun received =>
      received.job.host = host

/-- Calls and tasks belong together, and the count of a host is that of its running tasks. -/
structure Tracked (process : Process) : Prop where
  told : process.journal.Told
  made : ∀ id, (process.worker.executor.calls id).map Call.job =
    (process.spawned[id]?).map Received.job
  counts : ∀ host, process.inflight host = (process.running host).card

/-- At the start there are no tasks. -/
theorem Tracked.new (key : String) (keyMtime : Option Nat) : Tracked (.new key keyMtime) where
  told := .new key _ _
  made _ := rfl
  counts _ := rfl

/-- What runs on a host is told by the tasks. -/
theorem Process.running_congr (tasks : next.tasks = process.tasks)
    (spawned : next.spawned = process.spawned) (host : String) :
    next.running host = process.running host := by
  unfold Process.running
  rw [tasks, spawned]

/-- A task more for the host of its job. -/
theorem Process.running_spawn {received : Received}
    (tasks : next.tasks = Function.update process.tasks process.spawned.length .running)
    (spawned : next.spawned = process.spawned ++ [received]) (host : String) :
    next.running host =
      if received.job.host = host then insert process.spawned.length (process.running host)
      else process.running host := by
  have others : ∀ id ∈ Finset.range process.spawned.length,
      (next.tasks id = .running ∧ (next.spawned[id]?).any fun received =>
        received.job.host = host) ↔
      (process.tasks id = .running ∧ (process.spawned[id]?).any fun received =>
        received.job.host = host) := by
    intro id inside
    have below := Finset.mem_range.mp inside
    rw [tasks, spawned, Function.update_of_ne (Nat.ne_of_lt below),
      List.getElem?_append_left below]
  have last : (next.spawned[process.spawned.length]?) = some received := by
    rw [spawned, List.getElem?_append_right (Nat.le_refl _), Nat.sub_self]
    rfl
  unfold Process.running
  rw [spawned, List.length_append, List.length_singleton, Finset.range_add_one, ← spawned,
    Finset.filter_insert, Finset.filter_congr others, last, tasks, Function.update_self]
  simp only [Option.any_some, decide_eq_true_eq, true_and]

/-- A task that is off the count of its host. -/
theorem Process.running_stop {id : Nat} {task : Task} (stopped : task ≠ .running)
    (tasks : next.tasks = Function.update process.tasks id task)
    (spawned : next.spawned = process.spawned) (host : String) :
    next.running host = (process.running host).erase id := by
  ext other
  unfold Process.running
  rw [tasks, spawned, Finset.mem_erase, Finset.mem_filter, Finset.mem_filter]
  by_cases same : other = id
  · rw [same, Function.update_self]
    exact iff_of_false (fun here => stopped here.2.1) fun here => here.1 rfl
  · rw [Function.update_of_ne same]
    exact ⟨fun here => ⟨same, here⟩, fun here => here.2⟩

/-- Only the calls and the endings matter. -/
theorem Journal.Told.congr {journal later : Journal} (told : journal.Told)
    (calls : later.executor.calls = journal.executor.calls)
    (endings : later.endings = journal.endings) : later.Told where
  made id call there := by
    rw [endings]
    rw [calls] at there
    exact told.made id call there
  unmade id absent := by
    rw [endings]
    rw [calls] at absent
    exact told.unmade id absent

namespace Tracked

/-- Tasks that stay the same are tracked. -/
theorem same (tracked : Tracked process) (same : SameTasks process next) : Tracked next where
  told := tracked.told.congr same.calls same.endings
  made id := by
    rw [same.calls, same.spawned]
    exact tracked.made id
  counts host := by
    rw [same.inflight, Process.running_congr same.tasks same.spawned]
    exact tracked.counts host

/-- A call belongs to a task that was spawned. -/
theorem spawned_of_call (tracked : Tracked process) {id : Nat} {call : Call}
    (there : process.worker.executor.calls id = some call) :
    ∃ received, process.spawned[id]? = some received ∧ received.job = call.job := by
  have made := tracked.made id
  rw [there, Option.map_some] at made
  exact Option.map_eq_some_iff.mp made.symm

/-- A task that is spawned is tracked. -/
theorem spawn (tracked : Tracked process) {received : Received}
    (free : process.worker.executor.calls process.spawned.length = none)
    (calls : next.worker.executor.calls = Function.update process.worker.executor.calls
      process.spawned.length (some (.new received.job)))
    (endings : next.endings = process.endings)
    (inflight : next.inflight = Function.update process.inflight received.job.host
      (process.inflight received.job.host + 1))
    (tasks : next.tasks = Function.update process.tasks process.spawned.length .running)
    (spawned : next.spawned = process.spawned ++ [received]) : Tracked next where
  told := (tracked.told.execute free received.job).congr calls endings
  made id := by
    rw [calls, spawned, Function.update_apply]
    by_cases last : id = process.spawned.length
    · rw [if_pos last, last, List.getElem?_append_right (Nat.le_refl _), Nat.sub_self]
      rfl
    · rw [if_neg last, tracked.made id]
      by_cases below : id < process.spawned.length
      · rw [List.getElem?_append_left below]
      · have beyond : (process.spawned ++ [received])[id]? = none := by
          rw [List.getElem?_eq_none_iff, List.length_append, List.length_singleton]
          omega
        rw [beyond, List.getElem?_eq_none_iff.mpr (Nat.le_of_not_lt below)]
  counts host := by
    have fresh : process.spawned.length ∉ process.running host := by
      intro inside
      exact absurd (Finset.mem_range.mp (Finset.mem_of_mem_filter _ inside)) (Nat.lt_irrefl _)
    rw [inflight, Process.running_spawn tasks spawned, Function.update_apply]
    by_cases own : host = received.job.host
    · rw [if_pos own, if_pos own.symm, Finset.card_insert_of_notMem fresh, ← tracked.counts host,
        own]
    · rw [if_neg own, if_neg (Ne.symm own)]
      exact tracked.counts host

/-- A task whose call goes on is tracked. -/
theorem call (tracked : Tracked process) {id now : Nat} {act : Act} {call : Call}
    (there : process.worker.executor.calls id = some call)
    (done : { process.worker.executor with clock := now }.advance id now call act =
      some next.worker.executor)
    (endings : next.endings = noted process.endings (.call id now act))
    (inflight : next.inflight = process.inflight) (tasks : next.tasks = process.tasks)
    (spawned : next.spawned = process.spawned) : Tracked next := by
  obtain ⟨changed, calls, job, after⟩ := advance_goes (tracked.told.made id call there) done
  refine ⟨(tracked.told.goes ⟨changed, calls, job, after⟩).congr rfl endings, ?_, ?_⟩
  · intro other
    rw [calls, spawned, ← tracked.made other, Function.update_apply]
    split
    · next same =>
        rw [same, there, Option.map_some, Option.map_some, job]
    · rfl
  · intro host
    rw [inflight, Process.running_congr tasks spawned]
    exact tracked.counts host

/-- A task that is counted is tracked. -/
theorem count (tracked : Tracked process) {id : Nat} {call : Call}
    (there : process.worker.executor.calls id = some call) (running : process.tasks id = .running)
    (worker : next.worker = process.worker) (endings : next.endings = process.endings)
    (inflight : next.inflight = Function.update process.inflight call.job.host
      (process.inflight call.job.host - 1))
    (tasks : next.tasks = Function.update process.tasks id .counted)
    (spawned : next.spawned = process.spawned) : Tracked next where
  told := tracked.told.congr (congrArg (·.executor.calls) worker) endings
  made other := by
    rw [worker, spawned]
    exact tracked.made other
  counts host := by
    obtain ⟨received, found, job⟩ := tracked.spawned_of_call there
    have below : id < process.spawned.length := (List.getElem?_eq_some_iff.mp found).choose
    have inside : id ∈ process.running host ↔ call.job.host = host := by
      unfold Process.running
      rw [Finset.mem_filter, Finset.mem_range, found, Option.any_some, job, decide_eq_true_eq]
      exact ⟨fun here => here.2.2, fun own => ⟨below, running, own⟩⟩
    rw [inflight, Process.running_stop Task.noConfusion tasks spawned, Function.update_apply]
    by_cases own : host = call.job.host
    · rw [if_pos own, Finset.card_erase_of_mem (inside.mpr own.symm), ← tracked.counts host, own]
    · rw [if_neg own, Finset.erase_eq_of_notMem fun here => own (inside.mp here).symm]
      exact tracked.counts host

/-- A task that sends its result is tracked. -/
theorem send (tracked : Tracked process) {id : Nat} (counted : process.tasks id = .counted)
    (worker : next.worker = process.worker) (endings : next.endings = process.endings)
    (inflight : next.inflight = process.inflight)
    (tasks : next.tasks = Function.update process.tasks id .sent)
    (spawned : next.spawned = process.spawned) : Tracked next where
  told := tracked.told.congr (congrArg (·.executor.calls) worker) endings
  made other := by
    rw [worker, spawned]
    exact tracked.made other
  counts host := by
    have outside : id ∉ process.running host := by
      intro inside
      have running := (Finset.mem_filter.mp inside).2.1
      rw [counted] at running
      cases running
    rw [inflight, Process.running_stop Task.noConfusion tasks spawned,
      Finset.erase_eq_of_notMem outside]
    exact tracked.counts host

/-- **One step** keeps track of the tasks. -/
theorem step (tracked : Tracked process) (step : ProcessStep process event next) :
    Tracked next := by
  cases Process.step_tasks step with
  | idle same => exact tracked.same same
  | spawn received rest stage free calls endings inflight tasks spawned =>
      exact tracked.spawn free calls endings inflight tasks spawned
  | call id now act call there done endings inflight tasks spawned =>
      exact tracked.call there done endings inflight tasks spawned
  | count id call there running result returned worker endings inflight tasks spawned =>
      exact tracked.count there running worker endings inflight tasks spawned
  | send id counted result returned worker endings inflight tasks spawned =>
      exact tracked.send counted worker endings inflight tasks spawned

end Tracked

end Steps

end LolCrawler.Node
