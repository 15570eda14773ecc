import LolCrawler.Broker.TopUp
import LolCrawler.Node.Uploads

/-! # The fleet

One server, any number of node processes, and what is on its way between them. A request of a
process may be lost, and so may its answer; either may come late. The process gives a request
up when it likes. An answer reaches a process only on the request that it still waits for.

A process that has ended takes no more steps. One that is started again is another process,
of the same node. A restart of the server makes a new broker, whose job ids begin at one again.
What the nodes still hold is from an earlier life of the server then.
-/

namespace LolCrawler

open Foundation

/-- A poll at the server. -/
structure WorkRequest where
  process : Nat
  /-- The number of the poll. -/
  poll : Nat
  pending : String → Nat

structure WorkReply where
  process : Nat
  poll : Nat
  jobs : List Node.Received
deriving DecidableEq

/-- A result on its way to the server; the task is history. -/
structure Post where
  process : Nat
  /-- The number of the request. -/
  attempt : Nat
  task : Nat
  result : JobResult
deriving DecidableEq

/-- The answer to a result on its way back; the task is history. -/
structure Ack where
  process : Nat
  attempt : Nat
  task : Nat
deriving DecidableEq

/-- `life`, `asked` and `handled` are history: how often the server was started again, what the
fetches of this life ask for, and the tasks whose results the server has taken. -/
structure Fleet where
  broker : Broker
  processes : Nat → Node.Process
  /-- The node that the token of a process belongs to. -/
  nodeOf : Nat → Nat
  /-- How many polls and results a process has posted. -/
  polls : Nat → Nat
  attempts : Nat → Nat
  requests : List WorkRequest
  replies : List WorkReply
  posts : List Post
  acks : List Ack
  life : Nat
  asked : Nat → Option (String × String × String)
  handled : List (Nat × Nat)

inductive FleetEvent where
  /-- A step of a process that sends and receives nothing. -/
  | process (id : Nat) (event : Node.ProcessEvent)
  | poll (id : Nat)
  /-- A round of the loop in `work`; `late` once the deadline has passed. -/
  | work (index now activeNow : Nat) (dice : Nat → Bool) (hosts : List String) (late : Bool)
  | reply (index : Nat)
  | takeUp (id now : Nat)
  | repost (id now : Nat)
  | result (index nowUnixMs : Nat)
  | acknowledge (index : Nat)
  /-- A call of the crawl side, of the sweeper or on the registry. -/
  | server (call : Call)
  | restart

/-- Nothing is sent or received. -/
def Node.ProcessEvent.quiet : Node.ProcessEvent → Bool
  | .poll | .reply _ | .takeUp _ | .posted | .repost _ => false
  | _ => true

/-- A call that no request of a node makes. -/
def Call.own : Call → Bool
  | .takeJobs _ _ | .complete _ _ _ => false
  | _ => true

namespace Fleet

def new (nodeOf : Nat → Nat) (key : Nat → String) (keyMtime : Nat → Option Nat) : Fleet where
  broker := .new
  processes id := .new (key id) (keyMtime id)
  nodeOf := nodeOf
  polls _ := 0
  attempts _ := 0
  requests := []
  replies := []
  posts := []
  acks := []
  life := 0
  asked _ := none
  handled := []

def setProcess (fleet : Fleet) (id : Nat) (process : Node.Process) : Fleet :=
  { fleet with processes := Function.update fleet.processes id process }

/-- The arguments of `take_jobs` for a poll. -/
def taking (fleet : Fleet) (request : WorkRequest) (now activeNow : Nat) (dice : Nat → Bool) :
    Broker.Poll :=
  ⟨fleet.nodeOf request.process, request.pending, now, activeNow, dice⟩

/-- A round of the loop in `work`: without jobs and before the deadline the handler waits. -/
def work (fleet : Fleet) (index : Nat) (request : WorkRequest) (poll : Broker.Poll)
    (hosts : List String) (late : Bool) : Fleet :=
  let taken := fleet.broker.takeJobs poll hosts
  if taken.2 = [] ∧ late = false then { fleet with broker := taken.1 }
  else
    let jobs := taken.2.map fun job => ⟨job, fleet.life⟩
    { fleet with
      broker := taken.1
      requests := fleet.requests.eraseIdx index
      replies := fleet.replies ++ [⟨request.process, request.poll, jobs⟩] }

/-- The uploader of a process has sent a request. -/
def post (fleet : Fleet) (id : Nat) (process : Node.Process) : Option Fleet :=
  process.upload.map fun upload =>
    let attempt := fleet.attempts id + 1
    { fleet.setProcess id process with
      attempts := Function.update fleet.attempts id attempt
      posts := fleet.posts ++ [⟨id, attempt, upload.task, upload.result⟩] }

/-- What a fetch of this life asks for. -/
def ask (fleet : Fleet) : Call → Nat → Option (String × String × String)
  | .fetch host method path _ =>
      Function.update fleet.asked fleet.broker.nextId (some (host, method, path))
  | _ => fleet.asked

section Steps

variable {Value : Type} [DecidableEq Value] (fromStr : String → Option Value)

/-- The `result` handler. -/
def take (fleet : Fleet) (index : Nat) (post : Post) (nowUnixMs : Nat) : Fleet :=
  { fleet with
    broker := Broker.complete fromStr fleet.broker (fleet.nodeOf post.process) post.result nowUnixMs
    posts := fleet.posts.eraseIdx index
    acks := fleet.acks ++ [⟨post.process, post.attempt, post.task⟩]
    handled := fleet.handled ++ [(post.process, post.task)] }

def step (fleet : Fleet) : FleetEvent → Option Fleet
  | .process id event =>
      if event.quiet then ((fleet.processes id).step event).map (fleet.setProcess id) else none
  | .poll id =>
      match (fleet.processes id).stage with
      | .ready => ((fleet.processes id).step .poll).map fun process =>
          let poll := fleet.polls id + 1
          { fleet.setProcess id process with
            polls := Function.update fleet.polls id poll
            requests := fleet.requests ++ [⟨id, poll, (fleet.processes id).inflight⟩] }
      | _ => none
  | .work index now activeNow dice hosts late =>
      (fleet.requests[index]?).map fun request =>
        fleet.work index request (fleet.taking request now activeNow dice) hosts late
  | .reply index =>
      (fleet.replies[index]?).bind fun reply =>
        if reply.poll = fleet.polls reply.process then
          ((fleet.processes reply.process).step (.reply reply.jobs)).map fun process =>
            { fleet.setProcess reply.process process with replies := fleet.replies.eraseIdx index }
        else none
  | .takeUp id now => ((fleet.processes id).step (.takeUp now)).bind (fleet.post id)
  | .repost id now => ((fleet.processes id).step (.repost now)).bind (fleet.post id)
  | .result index nowUnixMs =>
      (fleet.posts[index]?).map fun post => fleet.take fromStr index post nowUnixMs
  | .acknowledge index =>
      (fleet.acks[index]?).bind fun ack =>
        if ack.attempt = fleet.attempts ack.process then
          ((fleet.processes ack.process).step .posted).map fun process =>
            { fleet.setProcess ack.process process with acks := fleet.acks.eraseIdx index }
        else none
  | .server call =>
      if call.own then
        some { fleet with broker := fleet.broker.apply fromStr call, asked := fleet.ask call }
      else none
  | .restart =>
      some { fleet with
        broker := .new, requests := [], life := fleet.life + 1, asked := fun _ => none }

/-- The iteration orders of an event list what the source iterates over. -/
def Admissible (fleet : Fleet) : FleetEvent → Prop
  | .work _ _ _ _ hosts _ => Enumerates hosts fun host => (fleet.broker.queues host).isSome
  | .server call => fleet.broker.Admissible call
  | _ => True

def Step (fleet : Fleet) (event : FleetEvent) (next : Fleet) : Prop :=
  fleet.step fromStr event = some next ∧ fleet.Admissible event

/-- Nothing is iterated over. -/
def plain : FleetEvent → Bool
  | .work .. | .server _ => false
  | _ => true

theorem run_of_plain {fleet : Fleet} {events : List FleetEvent} {found : Fleet → Bool}
    (done : (follow (Fleet.step fromStr) (fun _ => plain) fleet events).any found) :
    ∃ later, Run (Step fromStr) fleet events later ∧ found later := by
  obtain ⟨later, run, there⟩ := run_of_follow done
  refine ⟨later, run.mono fun source event target step => ⟨step.1, ?_⟩, there⟩
  cases event with
  | work => cases step.2
  | server => cases step.2
  | _ => exact trivial

/-- What each event does, with what it relies on. -/
inductive Moves (fleet : Fleet) : FleetEvent → Fleet → Prop where
  | process {id : Nat} {event : Node.ProcessEvent} {process : Node.Process}
      (quiet : event.quiet = true) (step : Node.ProcessStep (fleet.processes id) event process) :
      Moves fleet (.process id event) (fleet.setProcess id process)
  | poll {id : Nat} {process : Node.Process} (ready : (fleet.processes id).stage = .ready)
      (step : Node.ProcessStep (fleet.processes id) .poll process) :
      Moves fleet (.poll id) { fleet.setProcess id process with
        polls := Function.update fleet.polls id (fleet.polls id + 1)
        requests := fleet.requests ++
          [⟨id, fleet.polls id + 1, (fleet.processes id).inflight⟩] }
  | work {index now activeNow : Nat} {dice : Nat → Bool} {hosts : List String} {late : Bool}
      {request : WorkRequest} (there : fleet.requests[index]? = some request) :
      Moves fleet (.work index now activeNow dice hosts late)
        (fleet.work index request (fleet.taking request now activeNow dice) hosts late)
  | reply {index : Nat} {reply : WorkReply} {process : Node.Process}
      (there : fleet.replies[index]? = some reply)
      (current : reply.poll = fleet.polls reply.process)
      (step : Node.ProcessStep (fleet.processes reply.process) (.reply reply.jobs) process) :
      Moves fleet (.reply index)
        { fleet.setProcess reply.process process with replies := fleet.replies.eraseIdx index }
  /-- A request of the uploader, the first for its result or one after a sleep. -/
  | post {id : Nat} {event : FleetEvent} {inner : Node.ProcessEvent} {process : Node.Process}
      {upload : Node.Upload} (step : Node.ProcessStep (fleet.processes id) inner process)
      (sends : (∃ now, inner = .takeUp now) ∨ ∃ now, inner = .repost now)
      (uploads : process.upload = some upload) :
      Moves fleet event { fleet.setProcess id process with
        attempts := Function.update fleet.attempts id (fleet.attempts id + 1)
        posts := fleet.posts ++ [⟨id, fleet.attempts id + 1, upload.task, upload.result⟩] }
  | result {index nowUnixMs : Nat} {post : Post} (there : fleet.posts[index]? = some post) :
      Moves fleet (.result index nowUnixMs) (fleet.take fromStr index post nowUnixMs)
  | acknowledge {index : Nat} {ack : Ack} {process : Node.Process}
      (there : fleet.acks[index]? = some ack)
      (current : ack.attempt = fleet.attempts ack.process)
      (step : Node.ProcessStep (fleet.processes ack.process) .posted process) :
      Moves fleet (.acknowledge index)
        { fleet.setProcess ack.process process with acks := fleet.acks.eraseIdx index }
  | server {call : Call} (own : call.own = true) :
      Moves fleet (.server call)
        { fleet with broker := fleet.broker.apply fromStr call, asked := fleet.ask call }
  | restart :
      Moves fleet .restart { fleet with
        broker := .new, requests := [], life := fleet.life + 1, asked := fun _ => none }

variable {fleet next : Fleet} {event : FleetEvent}

theorem post_moves {id : Nat} {inner : Node.ProcessEvent}
    (sends : (∃ now, inner = .takeUp now) ∨ ∃ now, inner = .repost now)
    (done : ((fleet.processes id).step inner).bind (fleet.post id) = some next) :
    Moves fromStr fleet event next := by
  obtain ⟨process, step, posted⟩ := Option.bind_eq_some_iff.mp done
  obtain ⟨upload, uploads, rfl⟩ := Option.map_eq_some_iff.mp posted
  exact .post step sends uploads

/-- Each event moves the fleet in one of these ways. -/
theorem step_moves (done : fleet.step fromStr event = some next) :
    Moves fromStr fleet event next := by
  cases event with
  | process id inner =>
      rw [step] at done
      split at done
      · next quiet =>
          obtain ⟨process, step, rfl⟩ := Option.map_eq_some_iff.mp done
          exact .process quiet step
      · cases done
  | poll id =>
      rw [step] at done
      split at done
      · next ready =>
          obtain ⟨process, step, rfl⟩ := Option.map_eq_some_iff.mp done
          exact .poll ready step
      · cases done
  | work index now activeNow dice hosts late =>
      obtain ⟨request, there, rfl⟩ := Option.map_eq_some_iff.mp done
      exact .work there
  | reply index =>
      obtain ⟨reply, there, made⟩ := Option.bind_eq_some_iff.mp done
      split at made
      · next current =>
          obtain ⟨process, step, rfl⟩ := Option.map_eq_some_iff.mp made
          exact .reply there current step
      · cases made
  | takeUp id now => exact post_moves fromStr (.inl ⟨now, rfl⟩) done
  | repost id now => exact post_moves fromStr (.inr ⟨now, rfl⟩) done
  | result index nowUnixMs =>
      obtain ⟨post, there, rfl⟩ := Option.map_eq_some_iff.mp done
      exact .result there
  | acknowledge index =>
      obtain ⟨ack, there, made⟩ := Option.bind_eq_some_iff.mp done
      split at made
      · next current =>
          obtain ⟨process, step, rfl⟩ := Option.map_eq_some_iff.mp made
          exact .acknowledge there current step
      · cases made
  | server call =>
      rw [step] at done
      split at done
      · next own =>
          cases done
          exact .server own
      · cases done
  | restart =>
      cases done
      exact .restart

/-- Every event is a step of each process, or leaves it alone. -/
theorem Moves.processes (moves : Moves fromStr fleet event next) (id : Nat) :
    next.processes id = fleet.processes id ∨
      ∃ inner, Node.ProcessStep (fleet.processes id) inner (next.processes id) := by
  have update : ∀ {own : Nat} {inner : Node.ProcessEvent} {process : Node.Process},
      Node.ProcessStep (fleet.processes own) inner process →
      Function.update fleet.processes own process id = fleet.processes id ∨
        ∃ inner, Node.ProcessStep (fleet.processes id) inner
          (Function.update fleet.processes own process id) := by
    intro own inner process step
    rw [Function.update_apply]
    split
    · next same =>
        rw [same]
        exact .inr ⟨inner, step⟩
    · exact .inl rfl
  cases moves with
  | process quiet step => exact update step
  | poll ready step => exact update step
  | work there =>
      left
      unfold Fleet.work
      dsimp only
      split
      · rfl
      · rfl
  | reply there current step => exact update step
  | post step sends uploads => exact update step
  | result there => exact .inl rfl
  | acknowledge there current step => exact update step
  | server own => exact .inl rfl
  | restart => exact .inl rfl

/-- The broker has come where it is by calls of its own. -/
def Brokered (fleet : Fleet) : Prop := ∃ calls, Run (Broker.Step fromStr) .new calls fleet.broker

/-- What a process has, it has by steps of its own. -/
structure Composed (fleet : Fleet) : Prop where
  broker : fleet.Brokered fromStr
  tracked : ∀ id, Node.Tracked (fleet.processes id)
  held : ∀ id, Node.Held (fleet.processes id)

theorem Composed.new (nodeOf : Nat → Nat) (key : Nat → String) (keyMtime : Nat → Option Nat) :
    Composed fromStr (.new nodeOf key keyMtime) where
  broker := ⟨[], .nil _⟩
  tracked id := .new (key id) (keyMtime id)
  held id := .new (key id) (keyMtime id)

theorem Brokered.step (brokered : fleet.Brokered fromStr) (step : Step fromStr fleet event next) :
    next.Brokered fromStr := by
  obtain ⟨calls, run⟩ := brokered
  obtain ⟨done, admissible⟩ := step
  have further : ∀ call : Call, fleet.broker.Admissible call →
      ∃ calls, Run (Broker.Step fromStr) .new calls (fleet.broker.apply fromStr call) :=
    fun call allowed => ⟨calls ++ [call], run.append (.cons ⟨allowed, rfl⟩ (.nil _))⟩
  cases step_moves fromStr done with
  | @work index now activeNow dice hosts late request there =>
      have taken := further (.takeJobs (fleet.taking request now activeNow dice) hosts)
        admissible
      unfold Brokered Fleet.work
      dsimp only
      split
      · exact taken
      · exact taken
  | @result index nowUnixMs post there =>
      exact further (.complete (fleet.nodeOf post.process) post.result nowUnixMs) trivial
  | server own => exact further _ admissible
  | restart => exact ⟨[], .nil _⟩
  | process quiet step => exact ⟨calls, run⟩
  | poll ready step => exact ⟨calls, run⟩
  | reply there current step => exact ⟨calls, run⟩
  | post step sends uploads => exact ⟨calls, run⟩
  | acknowledge there current step => exact ⟨calls, run⟩

/-- A step of the fleet is one of the broker and of the processes. -/
theorem Composed.step (composed : Composed fromStr fleet) (step : Step fromStr fleet event next) :
    Composed fromStr next := by
  have processes := Moves.processes fromStr (step_moves fromStr step.1)
  constructor
  · exact composed.broker.step fromStr step
  · intro id
    rcases processes id with same | ⟨inner, moved⟩
    · rw [same]
      exact composed.tracked id
    · exact (composed.tracked id).step moved
  · intro id
    rcases processes id with same | ⟨inner, moved⟩
    · rw [same]
      exact composed.held id
    · exact (composed.held id).step (composed.tracked id) moved

end Steps

end Fleet

end LolCrawler
