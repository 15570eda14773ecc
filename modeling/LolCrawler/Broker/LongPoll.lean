import LolCrawler.Foundation.Wakeups
import LolCrawler.Broker.Clones
import LolCrawler.Broker.Shutdown

/-! # The long poll

A `work` request is answered by a loop: test the shutdown flag, take jobs, and unless some were
handed out or the deadline is past, wait on `Broker.notify` until the deadline. The look at the
queues and the call of `notified` are steps of their own, with no lock around them, and so are a
call that queues a job and its `notify_waiters`. `notify_waiters` wakes the futures that exist and
leaves no permit.
-/

namespace LolCrawler

open Foundation

/-- Long-poll ceiling in milliseconds; nodes may ask for less. -/
def maxWaitMs : Nat := 30000

/-- Where a `work` handler stands. -/
inductive Phase where
  /-- At the head of the loop. -/
  | looping
  /-- It has found the shutdown flag down. -/
  | admitted
  /-- `take_jobs` has returned. -/
  | taken (jobs : List Job)
  /-- It was handed nothing before its deadline, and calls `notified` next. -/
  | registering
  /-- In the `select!`. -/
  | parked (notified : Bool)
  | answered (jobs : List Job)
deriving DecidableEq

/-- `notify_waiters`: a future that exists is notified. -/
def Phase.notify : Phase → Phase
  | .parked _ => .parked true
  | phase => phase

/-- Where the handler stands with respect to `Broker.notify`. -/
def Phase.stage : Phase → Stage
  | .taken [] | .registering => .checked
  | .parked false => .registered
  | .parked true => .woken
  | .looping | .admitted | .taken _ | .answered _ => .busy

/-- A phase is notified as its stage is. -/
theorem Phase.stage_notify (phase : Phase) : phase.notify.stage = phase.stage.notify := by
  cases phase with
  | taken jobs => cases jobs <;> rfl
  | parked notified => cases notified <;> rfl
  | looping => rfl
  | admitted => rfl
  | registering => rfl
  | answered jobs => rfl

structure Handler where
  node : Nat
  pending : String → Nat
  deadline : Nat
  phase : Phase

def Handler.poll (handler : Handler) (now activeNow : Nat) (dice : Nat → Bool) : Broker.Poll :=
  ⟨handler.node, handler.pending, now, activeNow, dice⟩

/-- How many more jobs of a host the node takes. -/
def Handler.room (handler : Handler) (host : String) : Nat :=
  targetInflightPerHost - handler.pending host

/-- The broker with its flag, and the requests. -/
structure LongPoll where
  gate : Gate
  handlers : Nat → Option Handler
  now : Nat
  /-- Calls that have let go of the lock and are about to call `notify_waiters`. -/
  owed : Nat

/-- `requeued` -/
def Broker.requeues (broker : Broker) (node : Nat) (result : JobResult) : Bool :=
  (broker.jobs result.id).any fun job => job.accepts node &&
    match result.outcome with
    | .ok | .notFound => false
    | .keyRejected => true
    | .failed => job.failOnce.attempts < maxAttempts

namespace Gate

/-- Does the step end in a call that will notify? `sweep` does when a lease had expired. -/
def wakes (gate : Gate) : Event → Bool
  | .enter .. | .drain _ => true
  | .call (.complete node result _) => gate.broker.requeues node result
  | .call (.sweep _ expired _) => !expired.isEmpty
  | _ => false

/-- The polls are made by the handlers. -/
def offDuty : Event → Prop
  | .call (.takeJobs ..) => False
  | _ => True

end Gate

/-- What a handler waits for: a job that its node may run, at a host with room. -/
def Broker.Waits (broker : Broker) (handler : Handler) : Prop :=
  ∃ host, 0 < handler.room host ∧ broker.dispatchable handler.node host ≠ []

namespace LongPoll

def new : LongPoll := ⟨Gate.new, fun _ => none, 0, 0⟩

@[simps -fullyApplied]
def setHandler (poll : LongPoll) (id : Nat) (handler : Handler) : LongPoll :=
  { poll with handlers := Function.update poll.handlers id (some handler) }

def setBroker (poll : LongPoll) (broker : Broker) : LongPoll :=
  { poll with gate := { poll.gate with broker := broker } }

def notifyWaiters (poll : LongPoll) : LongPoll :=
  { poll with
    handlers := fun id => (poll.handlers id).map fun handler =>
      { handler with phase := handler.phase.notify } }

/-- A notification reaches every handler. -/
theorem notifyWaiters_handlers (poll : LongPoll) (id : Nat) :
    poll.notifyWaiters.handlers id = (poll.handlers id).map fun handler =>
      { handler with phase := handler.phase.notify } := rfl

inductive Event where
  /-- A request arrives, past its header checks. -/
  | arrive (id node : Nat) (pending : String → Nat) (waitMs : Nat)
  | isShutdown (id : Nat)
  | takeJobs (id now activeNow : Nat) (dice : Nat → Bool) (hosts : List String)
  /-- The test of the jobs and the deadline. -/
  | compare (id : Nat)
  | notified (id : Nat)
  /-- The `select!` is over. -/
  | select (id : Nat)
  /-- The crawl side, the uploads, the sweeper and the shutdown. -/
  | work (event : Gate.Event)
  | notifyWaiters
  | tick (now : Nat)

variable {Value : Type} [DecidableEq Value] (fromStr : String → Option Value)

/-- One step of any interleaving. -/
inductive Step : LongPoll → Event → LongPoll → Prop where
  | arrived {poll : LongPoll} {id node waitMs : Nat} {pending : String → Nat}
      (fresh : poll.handlers id = none) :
      Step poll (.arrive id node pending waitMs)
        ((poll.setBroker { poll.gate.broker with
            registry := poll.gate.broker.registry.touch node poll.now }).setHandler id
          ⟨node, pending, poll.now + min waitMs maxWaitMs, .looping⟩)
  | refused {poll : LongPoll} {id : Nat} {handler : Handler}
      (there : poll.handlers id = some handler) (phase : handler.phase = .looping)
      (raised : poll.gate.raised = true) :
      Step poll (.isShutdown id) (poll.setHandler id { handler with phase := .answered [] })
  | admitted {poll : LongPoll} {id : Nat} {handler : Handler}
      (there : poll.handlers id = some handler) (phase : handler.phase = .looping)
      (down : poll.gate.raised = false) :
      Step poll (.isShutdown id) (poll.setHandler id { handler with phase := .admitted })
  | took {poll : LongPoll} {id now activeNow : Nat} {dice : Nat → Bool} {hosts : List String}
      {handler : Handler} (there : poll.handlers id = some handler)
      (phase : handler.phase = .admitted)
      (order : Enumerates hosts fun host => (poll.gate.broker.queues host).isSome) :
      Step poll (.takeJobs id now activeNow dice hosts)
        ((poll.setBroker (poll.gate.broker.takeJobs (handler.poll now activeNow dice)
            hosts).1).setHandler id
          { handler with phase := .taken (poll.gate.broker.takeJobs
              (handler.poll now activeNow dice) hosts).2 })
  | answered {poll : LongPoll} {id : Nat} {handler : Handler} {jobs : List Job}
      (there : poll.handlers id = some handler) (phase : handler.phase = .taken jobs)
      (done : jobs ≠ [] ∨ handler.deadline ≤ poll.now) :
      Step poll (.compare id) (poll.setHandler id { handler with phase := .answered jobs })
  | waits {poll : LongPoll} {id : Nat} {handler : Handler}
      (there : poll.handlers id = some handler) (phase : handler.phase = .taken [])
      (before : poll.now < handler.deadline) :
      Step poll (.compare id) (poll.setHandler id { handler with phase := .registering })
  | registered {poll : LongPoll} {id : Nat} {handler : Handler}
      (there : poll.handlers id = some handler) (phase : handler.phase = .registering) :
      Step poll (.notified id) (poll.setHandler id { handler with phase := .parked false })
  | woken {poll : LongPoll} {id : Nat} {handler : Handler} {notified : Bool}
      (there : poll.handlers id = some handler) (phase : handler.phase = .parked notified)
      (ready : notified = true ∨ handler.deadline ≤ poll.now) :
      Step poll (.select id) (poll.setHandler id { handler with phase := .looping })
  | worked {poll : LongPoll} {event : Gate.Event} {next : Gate} (offDuty : Gate.offDuty event)
      (step : Gate.Step fromStr poll.gate event next) :
      Step poll (.work event)
        { poll with gate := next, owed := poll.owed + (poll.gate.wakes event).toNat }
  | notifies {poll : LongPoll} {owed : Nat} (owes : poll.owed = owed + 1) :
      Step poll .notifyWaiters { poll.notifyWaiters with owed := owed }
  | ticked {poll : LongPoll} {now : Nat} (later : poll.now ≤ now) :
      Step poll (.tick now) { poll with now := now }

/-- A handler parked before its deadline has been notified if a job waits for it in the queues, or
a call that queued a job is still to notify it. -/
def NoMissed (poll : LongPoll) : Prop :=
  ∀ id handler notified, poll.handlers id = some handler → handler.phase = .parked notified →
    poll.now < handler.deadline → poll.gate.broker.Waits handler → notified = true ∨ 0 < poll.owed

/-- A job waits for the handler, and the entries that it would take are all of jobs that are
gone. -/
def Starves (broker : Broker) (handler : Handler) (hosts : List String) : Prop :=
  broker.Waits handler ∧ ∀ host ∈ hosts, ∀ id ∈
    (broker.eligible handler.node host).take (handler.room host), broker.live id = false

/-- Some job that the poll hands out is cloned, at a host where the handler is of another node and
has room. -/
def Clones (broker : Broker) (poll : Broker.Poll) (hosts : List String) (handler : Handler) :
    Prop :=
  handler.node ≠ poll.node ∧ ∃ job ∈ broker.cloned poll (broker.handout poll hosts),
    0 < handler.room job.host

/-- The condition on a step. `notify_waiters` is not called while a job waits for a handler that
has looked at the queues and not called `notified` yet; a poll does not starve, and clones no job
for a handler that waits or is about to. All of this matters only before the deadline of that
handler, and when no other call of `notify_waiters` is to come. -/
def Undisturbed (poll : LongPoll) : Event → Prop
  | .notifyWaiters => 1 < poll.owed ∨ ∀ id handler, poll.handlers id = some handler →
      handler.phase.stage = .checked → poll.now < handler.deadline →
        ¬ poll.gate.broker.Waits handler
  | .takeJobs id now activeNow dice hosts => 0 < poll.owed ∨ ∀ caller,
      poll.handlers id = some caller →
        (poll.now < caller.deadline → ¬ Starves poll.gate.broker caller hosts) ∧
        ∀ other handler, poll.handlers other = some handler → handler.phase.stage.idle = true →
          poll.now < handler.deadline →
            ¬ Clones poll.gate.broker (caller.poll now activeNow dice) hosts handler
  | _ => True

/-! ## What a step leaves to wait for -/

variable {poll next : LongPoll} {event : Event}

def Needs (poll : LongPoll) (id : Nat) : Prop :=
  ∃ handler, poll.handlers id = some handler ∧ poll.now < handler.deadline ∧
    poll.gate.broker.Waits handler

def stage (poll : LongPoll) (id : Nat) : Stage :=
  (poll.handlers id).elim .busy fun handler => handler.phase.stage

/-- No wake-up has been missed, and none is being missed. -/
def Covered (poll : LongPoll) : Prop := Foundation.Covered poll.Needs poll.stage poll.owed

/-- All are covered if every handler is that can still be given a job. -/
theorem covered_iff (poll : LongPoll) : poll.Covered ↔
    ∀ id handler, poll.handlers id = some handler → handler.phase.stage.idle = true →
      poll.now < handler.deadline → poll.gate.broker.Waits handler → 0 < poll.owed := by
  constructor
  · intro covered id handler there idle before waits
    refine covered id ?_ ⟨handler, there, before, waits⟩
    rw [stage, there]
    exact idle
  · rintro covered id idle ⟨handler, there, before, waits⟩
    rw [stage, there] at idle
    exact covered id handler there idle before waits

/-- Where all are covered no job is missed. -/
theorem Covered.noMissed (covered : poll.Covered) : poll.NoMissed := by
  intro id handler notified there phase before waits
  cases notified with
  | true => exact .inl rfl
  | false =>
      refine .inr (Foundation.Covered.attended covered id ?_ ⟨handler, there, before, waits⟩)
      rw [stage, there, Option.elim_some, phase]
      rfl

/-- Who waits for a job that is queued waited for it before. -/
theorem waits_of_queued {broker later : Broker} {handler : Handler} (waits : later.Waits handler)
    (queued : ∀ host, 0 < handler.room host → later.Queued handler.node host →
      broker.Queued handler.node host) : broker.Waits handler := by
  obtain ⟨host, room, some⟩ := waits
  exact ⟨host, room, (broker.queued_iff _ host).mp
    (queued host room ((later.queued_iff _ host).mpr some))⟩

end LongPoll

namespace Broker

variable {broker : Broker} {node : Nat} {host : String}

/-- What is queued after the sweeper was queued before. -/
theorem sweep_queued {stale : List Nat} (queued : (broker.sweep [] stale).Queued node host) :
    broker.Queued node host :=
  (drops_dropTwins broker stale).queued queued

section Results

variable {Value : Type} [DecidableEq Value] (fromStr : String → Option Value)

/-- A result leaves something new to run only by putting its job back. -/
theorem complete_queued {uploader nowUnixMs : Nat} {result : JobResult}
    (queued : (complete fromStr broker uploader result nowUnixMs).Queued node host) :
    broker.Queued node host ∨ broker.requeues uploader result = true := by
  have completion := complete_completion fromStr broker uploader result nowUnixMs
  generalize complete fromStr broker uploader result nowUnixMs = next at completion queued
  cases completion with
  | stale refused => exact .inl queued
  | @delivered job body live accepted filed =>
      have same := deliver_sameTable fromStr broker uploader result job body nowUnixMs
      have resolved := (drops_send _ job.responder body.response).trans
        (drops_removeJob broker result.id)
      exact .inl (resolved.queued (same.queued queued))
  | keyRejected live accepted outcome =>
      refine .inr ?_
      rw [requeues, live, Option.any_some, accepted, outcome]
      rfl
  | @exhausted job live accepted outcome reached =>
      refine .inl ?_
      have failed := (drops_abandon (broker.setJob result.id job.failOnce) result.id
        (result.error.getD "failed")).queued queued
      obtain ⟨entry, inside, runs⟩ := failed
      refine ⟨entry, inside, ?_⟩
      rw [mayRun, setJob_jobs] at runs
      by_cases same : entry.1 = result.id
      · rw [same, Function.update_self] at runs
        rw [mayRun, same, live]
        exact runs
      · rwa [Function.update_of_ne same] at runs
  | @requeued job live accepted outcome within =>
      refine .inr ?_
      rw [requeues, live, Option.any_some, accepted, outcome]
      exact decide_eq_true within

end Results

end Broker

namespace Gate

variable {Value : Type} [DecidableEq Value] (fromStr : String → Option Value)
  {gate next : Gate} {event : Event} {node : Nat} {host : String}

/-- Whoever leaves something new to run will notify. -/
theorem step_queued (offDuty : offDuty event) (step : Step fromStr gate event next)
    (queued : next.broker.Queued node host) :
    gate.broker.Queued node host ∨ gate.wakes event = true := by
  cases step with
  | refused _ => exact .inl queued
  | passed _ => exact .inl queued
  | entered _ => exact .inr rfl
  | raised => exact .inl queued
  | drained _ _ => exact .inr rfl
  | @called call _ _ step =>
      obtain ⟨-, rfl⟩ := step
      cases call with
      | fetch => exact .inl (by contradiction)
      | takeJobs => exact offDuty.elim
      | complete uploader result nowUnixMs => exact Broker.complete_queued fromStr queued
      | sweep now expired stale =>
          cases expired with
          | nil => exact .inl (Broker.sweep_queued queued)
          | cons id expired => exact .inr rfl
      | enrollRuntime => exact .inl queued
      | touch => exact .inl queued

end Gate

end LolCrawler
