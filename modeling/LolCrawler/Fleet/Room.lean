import LolCrawler.Fleet.System

/-! # The inflight target

The server hands a node as many jobs of a host as its poll leaves room for, and the count of a
host only falls while the poll is under way. So no process ever holds more jobs of a host than
the target, however late, lost or reordered the polls and their answers are
(`inflight_le_target`).
-/

namespace LolCrawler

open Foundation

namespace Node

/-! ## What a step does to the loop -/

/-- The loop neither waits for jobs nor has any that are to be spawned. -/
def Stage.settled : Stage → Bool
  | .polling _ | .spawning _ => false
  | .head | .ready | .left _ | .ended => true

/-- What a step does to the loop and the count, with what it relies on. -/
inductive LoopMove (process next : Process) : ProcessEvent → Prop where
  /-- The step is not one of the loop, or the loop does not move. -/
  | aside {event : ProcessEvent} (stage : next.stage = process.stage)
      (inflight : ∀ host, next.inflight host ≤ process.inflight host) :
      LoopMove process next event
  | settles {event : ProcessEvent}
      (stage : next.stage.settled = true) (inflight : next.inflight = process.inflight) :
      LoopMove process next event
  | polls (stage : next.stage = .polling process.inflight)
      (inflight : next.inflight = process.inflight) : LoopMove process next .poll
  | replied (pending : String → Nat) (jobs : List Received)
      (polling : process.stage = .polling pending) (stage : next.stage = .spawning jobs)
      (inflight : next.inflight = process.inflight) : LoopMove process next (.reply jobs)
  | spawns (received : Received) (rest : List Received)
      (spawning : process.stage = .spawning (received :: rest))
      (stage : next.stage = .spawning rest)
      (inflight : next.inflight = Function.update process.inflight received.job.host
        (process.inflight received.job.host + 1)) : LoopMove process next .spawn

section Steps

variable {process next : Process} {event : ProcessEvent}

/-- A loop that stays and counts the same has not moved. -/
theorem LoopMove.same (stage : next.stage = process.stage)
    (inflight : next.inflight = process.inflight) : LoopMove process next event :=
  .aside stage fun host => Nat.le_of_eq (congrFun inflight host)

/-- A step of the loop that settles leaves what is in flight. -/
theorem Process.atHead_loop {inner : WorkerEvent} {stage : Worker → Stage}
    (stays : ∀ worker, (stage worker).settled = true)
    (done : process.atHead inner stage = some next) : LoopMove process next event := by
  unfold Process.atHead at done
  split at done
  · obtain ⟨worker, step, rfl⟩ := Option.map_eq_some_iff.mp done
    exact .settles (stays worker) rfl
  · cases done

/-- A spawn counts its job. -/
theorem Process.spawn_loop (done : process.spawn = some next) : LoopMove process next .spawn := by
  unfold Process.spawn at done
  split at done
  · next received rest stage =>
      obtain ⟨worker, step, rfl⟩ := Option.map_eq_some_iff.mp done
      exact .spawns received rest stage rfl rfl
  · cases done

/-- A task that ends is counted off. -/
theorem Process.count_loop {id : Nat} (done : process.count id = some next) :
    LoopMove process next event := by
  unfold Process.count at done
  split at done
  · next call result there returned running =>
      cases done
      refine .aside rfl fun host => ?_
      change Function.update process.inflight call.job.host
        (process.inflight call.job.host - 1) host ≤ process.inflight host
      rw [Function.update_apply]
      split
      · next own =>
          rw [own]
          exact Nat.sub_le _ _
      · exact Nat.le_refl _
  · cases done

/-- The uploader leaves the loop alone. -/
theorem Process.answered_loop {after : Upload → Option Process}
    (done : process.answered after = some next)
    (same : ∀ upload later, after upload = some later →
      later.stage = process.stage ∧ later.inflight = process.inflight) :
    LoopMove process next event := by
  unfold Process.answered at done
  split at done
  · next upload there =>
      split at done
      · obtain ⟨stage, inflight⟩ := same upload next done
        exact .same stage inflight
      · cases done
  · cases done

/-- A post that is tried again leaves the loop. -/
theorem Process.repost_loop {now : Nat} (done : process.repost now = some next) :
    LoopMove process next event := by
  unfold Process.repost at done
  split at done
  · split at done
    · split at done
      · cases done
        exact .same rfl rfl
      · cases done
    · cases done
  · cases done

/-- Each step of a process moves the loop in one of these ways. -/
theorem Process.step_loop (step : ProcessStep process event next) :
    LoopMove process next event := by
  obtain ⟨step, -⟩ := step.acts
  cases event with
  | look =>
      refine Process.atHead_loop (fun worker => ?_) step
      split
      · rfl
      · rfl
  | wake mtime fresh => exact Process.atHead_loop (fun _ => rfl) step
  | installed => exact Process.atHead_loop (fun _ => rfl) step
  | poll =>
      rw [Process.act] at step
      split at step
      · cases step
        exact .polls rfl rfl
      · cases step
  | reply jobs =>
      rw [Process.act] at step
      split at step
      · next pending stage =>
          cases step
          exact .replied pending jobs stage rfl rfl
      · cases step
  | pollFailed | pace =>
      rw [Process.act] at step
      split at step
      · cases step
        exact .settles rfl rfl
      · cases step
  | exit now =>
      rw [Process.exit_eq step]
      exact .settles rfl rfl
  | killed =>
      cases step
      exact .settles rfl rfl
  | leave now =>
      rw [Process.act] at step
      split at step
      · cases step
        exact .settles rfl rfl
      · cases step
        exact .settles rfl rfl
      · cases step
  | spawn => exact Process.spawn_loop step
  | count id => exact Process.count_loop step
  | call id now act =>
      obtain ⟨worker, made, rfl⟩ := Option.map_eq_some_iff.mp step
      exact .same rfl rfl
  | send id =>
      rw [Process.act, Process.send] at step
      split at step
      · cases step
        exact .same rfl rfl
      · cases step
  | takeUp now =>
      rw [Process.act, Process.takeUp] at step
      split at step
      · cases step
        exact .same rfl rfl
      · cases step
  | posted | postRefused =>
      refine Process.answered_loop step fun upload later made => ?_
      cases made
      exact ⟨rfl, rfl⟩
  | postFailed now =>
      refine Process.answered_loop step fun upload later made => ?_
      split at made
      · split at made
        · cases made
          exact ⟨rfl, rfl⟩
        · cases made
          exact ⟨rfl, rfl⟩
      · cases made
  | repost now => exact Process.repost_loop step

end Steps

/-! ## The room of a process -/

/-- How many of these jobs are for a host. -/
def jobsFor (host : String) (jobs : List Received) : Nat :=
  jobs.countP fun received => received.job.host = host

/-- With the jobs that are yet to be spawned, a process holds no more of a host than the target, and
while it polls no more than it has told the server. -/
def Stage.Roomy (inflight : String → Nat) : Stage → Prop
  | .polling pending => ∀ host, inflight host ≤ pending host ∧ pending host ≤ targetInflightPerHost
  | .spawning jobs => ∀ host, inflight host + jobsFor host jobs ≤ targetInflightPerHost
  | _ => ∀ host, inflight host ≤ targetInflightPerHost

def Process.Roomy (process : Process) : Prop := process.stage.Roomy process.inflight

/-- The jobs of a reply to the poll that this process waits for fit. -/
def Process.Fits (process : Process) : ProcessEvent → Prop
  | .reply jobs => ∀ pending, process.stage = .polling pending → ∀ host,
      jobsFor host jobs ≤ targetInflightPerHost - pending host
  | _ => True

namespace Stage.Roomy

variable {inflight below : String → Nat} {stage : Stage}

/-- No host has more than the target in flight. -/
theorem le_target (roomy : stage.Roomy inflight) (host : String) :
    inflight host ≤ targetInflightPerHost := by
  cases stage with
  | polling pending => exact (roomy host).1.trans (roomy host).2
  | spawning jobs => exact (Nat.le_add_right _ _).trans (roomy host)
  | head | ready | left | ended => exact roomy host

/-- A count that falls leaves more room. -/
theorem of_le (roomy : stage.Roomy inflight) (falls : ∀ host, below host ≤ inflight host) :
    stage.Roomy below := by
  cases stage with
  | polling pending => exact fun host => ⟨(falls host).trans (roomy host).1, (roomy host).2⟩
  | spawning jobs => exact fun host => (Nat.add_le_add_right (falls host) _).trans (roomy host)
  | head | ready | left | ended => exact fun host => (falls host).trans (roomy host)

/-- A job that is spawned was asked for. -/
theorem spawn {received : Received} {rest : List Received}
    (roomy : (Stage.spawning (received :: rest)).Roomy inflight) :
    (Stage.spawning rest).Roomy
      (Function.update inflight received.job.host (inflight received.job.host + 1)) := by
  intro host
  have before := roomy host
  unfold jobsFor at before ⊢
  rw [List.countP_cons] at before
  rw [Function.update_apply]
  by_cases own : host = received.job.host
  · rw [if_pos (decide_eq_true own.symm)] at before
    rw [if_pos own, ← own]
    omega
  · rw [if_neg own]
    omega

end Stage.Roomy

/-- **One step** of a process keeps its hosts roomy, if it fits. -/
theorem Process.Roomy.step {process next : Process} {event : ProcessEvent}
    (roomy : process.Roomy) (fits : process.Fits event) (step : ProcessStep process event next) :
    next.Roomy := by
  unfold Process.Roomy at roomy ⊢
  cases Process.step_loop step with
  | aside stage inflight =>
      rw [stage]
      exact roomy.of_le inflight
  | settles stage inflight =>
      rw [inflight]
      cases there : next.stage with
      | polling | spawning =>
          rw [there] at stage
          cases stage
      | head | ready | left | ended => exact roomy.le_target
  | polls stage inflight =>
      rw [stage, inflight]
      exact fun host => ⟨Nat.le_refl _, roomy.le_target host⟩
  | replied pending jobs polling stage inflight =>
      rw [polling] at roomy
      rw [stage, inflight]
      intro host
      have room := fits pending polling host
      have held := roomy host
      omega
  | spawns received rest spawning stage inflight =>
      rw [spawning] at roomy
      rw [stage, inflight]
      exact roomy.spawn

/-- Only a poll makes a process wait for an answer. -/
theorem Process.polling_before {process next : Process} {event : ProcessEvent}
    (step : ProcessStep process event next) (other : event ≠ .poll) {pending : String → Nat}
    (polling : next.stage = .polling pending) : process.stage = .polling pending := by
  cases Process.step_loop step with
  | aside stage inflight => exact stage.symm.trans polling
  | settles stage inflight =>
      rw [polling] at stage
      cases stage
  | polls stage inflight => exact absurd rfl other
  | replied before jobs waiting stage inflight =>
      rw [polling] at stage
      cases stage
  | spawns received rest spawning stage inflight =>
      rw [polling] at stage
      cases stage

end Node

/-! ## Polls and their answers -/

namespace Fleet

variable {fleet next : Fleet} {event : FleetEvent}

/-- The poll with this number is the one that the process waits for. -/
def Awaits (fleet : Fleet) (process poll : Nat) (pending : String → Nat) : Prop :=
  poll = fleet.polls process ∧ (fleet.processes process).stage = .polling pending

/-- No process holds more jobs of a host than the target, and what is on its way keeps it so. -/
structure Roomy (fleet : Fleet) : Prop where
  processes : ∀ id, (fleet.processes id).Roomy
  made : ∀ request ∈ fleet.requests, request.poll ≤ fleet.polls request.process
  answered : ∀ reply ∈ fleet.replies, reply.poll ≤ fleet.polls reply.process
  requests : ∀ request ∈ fleet.requests, ∀ pending,
    fleet.Awaits request.process request.poll pending → request.pending = pending
  replies : ∀ reply ∈ fleet.replies, ∀ pending,
    fleet.Awaits reply.process reply.poll pending → ∀ host,
      Node.jobsFor host reply.jobs ≤ targetInflightPerHost - pending host

section Steps

variable {Value : Type} [DecidableEq Value] (fromStr : String → Option Value)

/-- A poll that is awaited was awaited before. -/
theorem Awaits.before {id : Nat} {process : Node.Process} {inner : Node.ProcessEvent}
    (processes : next.processes = Function.update fleet.processes id process)
    (polls : next.polls = fleet.polls)
    (step : Node.ProcessStep (fleet.processes id) inner process) (other : inner ≠ .poll)
    {owner poll : Nat} {pending : String → Nat} (awaits : next.Awaits owner poll pending) :
    fleet.Awaits owner poll pending := by
  obtain ⟨current, polling⟩ := awaits
  rw [polls] at current
  rw [processes, Function.update_apply] at polling
  split at polling
  · next same =>
      rw [same] at current ⊢
      exact ⟨current, Node.Process.polling_before step other polling⟩
  · exact ⟨current, polling⟩

namespace Roomy

/-- At the start every host is roomy. -/
theorem new (nodeOf : Nat → Nat) (key : Nat → String) (keyMtime : Nat → Option Nat) :
    Roomy (.new nodeOf key keyMtime) where
  processes id host := Nat.zero_le _
  made request inside := by cases inside
  answered reply inside := by cases inside
  requests request inside := by cases inside
  replies reply inside := by cases inside

/-- A step of one process that makes no poll. -/
theorem process (roomy : fleet.Roomy) {id : Nat} {process : Node.Process}
    {inner : Node.ProcessEvent}
    (processes : next.processes = Function.update fleet.processes id process)
    (polls : next.polls = fleet.polls)
    (step : Node.ProcessStep (fleet.processes id) inner process) (other : inner ≠ .poll)
    (fits : (fleet.processes id).Fits inner) (requests : next.requests = fleet.requests)
    (replies : ∀ reply ∈ next.replies, reply ∈ fleet.replies) : next.Roomy where
  processes owner := by
    rw [processes, Function.update_apply]
    split
    · exact (roomy.processes id).step fits step
    · exact roomy.processes owner
  made request inside := by
    rw [requests] at inside
    rw [polls]
    exact roomy.made request inside
  answered reply inside := by
    rw [polls]
    exact roomy.answered reply (replies reply inside)
  requests request inside pending awaits := by
    rw [requests] at inside
    exact roomy.requests request inside pending (awaits.before processes polls step other)
  replies reply inside pending awaits :=
    roomy.replies reply (replies reply inside) pending (awaits.before processes polls step other)

/-- The polls before are not waited for any more. -/
theorem poll (roomy : fleet.Roomy) {id : Nat} {process : Node.Process}
    (ready : (fleet.processes id).stage = .ready)
    (step : Node.ProcessStep (fleet.processes id) .poll process) :
    Roomy { fleet.setProcess id process with
      polls := Function.update fleet.polls id (fleet.polls id + 1)
      requests := fleet.requests ++
        [⟨id, fleet.polls id + 1, (fleet.processes id).inflight⟩] } := by
  have grows : ∀ owner, fleet.polls owner ≤
      Function.update fleet.polls id (fleet.polls id + 1) owner := by
    intro owner
    rw [Function.update_apply]
    split
    · next same =>
        rw [same]
        exact Nat.le_succ _
    · exact Nat.le_refl _
  have before : ∀ {owner number : Nat} {pending : String → Nat}, number ≤ fleet.polls owner →
      number = Function.update fleet.polls id (fleet.polls id + 1) owner →
      (Function.update fleet.processes id process owner).stage = .polling pending →
      fleet.Awaits owner number pending := by
    intro owner number pending made current polling
    rw [Function.update_apply] at current polling
    split at current
    · next same =>
        rw [same] at made
        omega
    · next different =>
        rw [if_neg different] at polling
        exact ⟨current, polling⟩
  have fits : (fleet.processes id).Fits .poll := trivial
  constructor
  · intro owner
    change (Function.update fleet.processes id process owner).Roomy
    rw [Function.update_apply]
    split
    · exact (roomy.processes id).step fits step
    · exact roomy.processes owner
  · intro request inside
    rcases List.mem_append.mp inside with old | new
    · exact (roomy.made request old).trans (grows request.process)
    · cases List.mem_singleton.mp new
      change fleet.polls id + 1 ≤ Function.update fleet.polls id (fleet.polls id + 1) id
      rw [Function.update_self]
  · intro reply inside
    exact (roomy.answered reply inside).trans (grows reply.process)
  · intro request inside pending awaits
    rcases List.mem_append.mp inside with old | new
    · exact roomy.requests request old pending
        (before (roomy.made request old) awaits.1 awaits.2)
    · cases List.mem_singleton.mp new
      have polling := awaits.2
      change (Function.update fleet.processes id process id).stage = .polling pending at polling
      rw [Function.update_self] at polling
      have acts := step.acts.1
      rw [Node.Process.act, ready] at acts
      cases acts
      cases polling
      rfl
  · intro reply inside pending awaits
    exact roomy.replies reply inside pending
      (before (roomy.answered reply inside) awaits.1 awaits.2)

/-- What a poll is handed of a host fits into the room that it leaves. -/
theorem handed {broker : Broker} (homed : broker.Homed) (poll : Broker.Poll) {hosts : List String}
    (order : Enumerates hosts fun host => (broker.queues host).isSome) (life : Nat)
    (host : String) :
    Node.jobsFor host ((broker.takeJobs poll hosts).2.map fun job => ⟨job, life⟩) ≤
      targetInflightPerHost - poll.pending host := by
  have reply := congrArg List.length (Broker.takeJobs_reply homed poll order host)
  rw [List.length_map] at reply
  rw [Node.jobsFor, List.countP_map, List.countP_eq_length_filter]
  change ((broker.takeJobs poll hosts).2.filter fun job => job.host = host).length ≤ _
  rw [reply]
  calc (((broker.eligible poll.node host).take (Broker.room poll host)).filter broker.live).length
      ≤ ((broker.eligible poll.node host).take (Broker.room poll host)).length :=
        List.length_filter_le _ _
    _ ≤ Broker.room poll host := List.length_take_le _ _

/-- The answer to a poll fits. -/
theorem work (roomy : fleet.Roomy) (homed : fleet.broker.Homed) {index : Nat}
    {request : WorkRequest} (there : fleet.requests[index]? = some request) {poll : Broker.Poll}
    (pending : poll.pending = request.pending) {hosts : List String}
    (order : Enumerates hosts fun host => (fleet.broker.queues host).isSome) (late : Bool) :
    (fleet.work index request poll hosts late).Roomy := by
  unfold Fleet.work
  dsimp only
  split
  · exact ⟨roomy.processes, roomy.made, roomy.answered, roomy.requests, roomy.replies⟩
  · have inside := List.mem_of_getElem? there
    constructor
    · exact roomy.processes
    · exact fun other left => roomy.made other (List.mem_of_mem_eraseIdx left)
    · intro reply answered
      rcases List.mem_append.mp answered with old | new
      · exact roomy.answered reply old
      · cases List.mem_singleton.mp new
        exact roomy.made request inside
    · exact fun other left => roomy.requests other (List.mem_of_mem_eraseIdx left)
    · intro reply answered told awaits
      rcases List.mem_append.mp answered with old | new
      · exact roomy.replies reply old told awaits
      · cases List.mem_singleton.mp new
        rw [← roomy.requests request inside told awaits, ← pending]
        exact handed homed poll order fleet.life

/-- **One step** of the fleet keeps every host roomy. -/
theorem step (roomy : fleet.Roomy) (brokered : fleet.Brokered fromStr)
    (step : Step fromStr fleet event next) : next.Roomy := by
  obtain ⟨done, admissible⟩ := step
  cases step_moves fromStr done with
  | @process id inner process quiet step =>
      have other : inner ≠ .poll := fun same => by
        rw [same] at quiet
        cases quiet
      have fits : (fleet.processes id).Fits inner := by
        cases inner with
        | reply jobs => cases quiet
        | _ => exact trivial
      exact roomy.process rfl rfl step other fits rfl fun reply inside => inside
  | poll ready step => exact roomy.poll ready step
  | @work index now activeNow dice hosts late request there =>
      obtain ⟨calls, run⟩ := brokered
      exact roomy.work (Broker.run_homed fromStr run).1 there rfl admissible late
  | @reply index reply process there current step =>
      have inside := List.mem_of_getElem? there
      refine roomy.process rfl rfl step nofun ?_ rfl fun other left => List.mem_of_mem_eraseIdx left
      exact fun pending polling => roomy.replies reply inside pending ⟨current, polling⟩
  | @post id event inner process upload step sends uploads =>
      rcases sends with ⟨now, rfl⟩ | ⟨now, rfl⟩
      · exact roomy.process rfl rfl step nofun trivial rfl fun reply inside => inside
      · exact roomy.process rfl rfl step nofun trivial rfl fun reply inside => inside
  | acknowledge there current step =>
      exact roomy.process rfl rfl step nofun trivial rfl fun reply inside => inside
  | result there =>
      exact ⟨roomy.processes, roomy.made, roomy.answered, roomy.requests, roomy.replies⟩
  | server own =>
      exact ⟨roomy.processes, roomy.made, roomy.answered, roomy.requests, roomy.replies⟩
  | restart =>
      exact ⟨roomy.processes, nofun, roomy.answered, nofun, roomy.replies⟩

end Roomy

end Steps

def idle : Fleet := .new (fun id => id) (fun _ => "key") fun _ => none

def polled : List FleetEvent :=
  [.server (.fetch "europe" "match-v5.match" "/x" 0), .process 0 .look, .poll 0,
    .work 0 5 5 (fun _ => false) ["europe"] false]

def spawned : List FleetEvent := [.reply 0, .process 0 .spawn, .process 0 .pace]

end Fleet

end LolCrawler
