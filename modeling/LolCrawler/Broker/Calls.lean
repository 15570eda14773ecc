import LolCrawler.Broker.State

/-! # The broker's entry points

`fetch` on the crawl side; `takeJobs` and `complete` on the node side; `sweep`
from the periodic sweeper. Each call runs under the broker's lock, so an
interleaving of calls is a run of `Broker.Step`.
-/

namespace LolCrawler

inductive JobOutcome where
  | ok
  | notFound
  | keyRejected
  | failed
deriving DecidableEq

structure JobResult where
  id : Nat
  outcome : JobOutcome
  body : Option String
  error : Option String
deriving DecidableEq

/-- One job as handed to a node. -/
structure Job where
  id : Nat
  host : String
  method : String
  path : String
  leaseMs : Nat
deriving DecidableEq

/-- The body of an `Ok` or `NotFound` result; `none` for the failures. -/
def JobResult.auditBody (result : JobResult) : Option AuditBody :=
  match result.outcome with
  | .ok => some (.found (result.body.getD ""))
  | .notFound => some .notFound
  | .keyRejected | .failed => none

/-- What the crawl side receives for a body. -/
def AuditBody.response : AuditBody → FetchResult
  | .found body => .ok (some body)
  | .notFound => .ok none

/-- The lease check of `complete`: held by this node, or expired and not leased
again. -/
def JobState.accepts (job : JobState) (node : Nat) : Bool :=
  match job.lease with
  | some (holder, _) => holder = node
  | none => true

/-- The lease is given up; `countAttempt` for lease expiry. -/
def JobState.unlease (job : JobState) (countAttempt : Bool) : JobState :=
  { job with lease := none, attempts := if countAttempt then job.attempts + 1 else job.attempts }

/-- One more failed attempt. -/
def JobState.failOnce (job : JobState) : JobState :=
  { job with attempts := job.attempts + 1 }

section Compare

variable {Value : Type} [DecidableEq Value] (fromStr : String → Option Value)

/-- Structural JSON comparison, byte equality for non-JSON bodies. -/
def jsonEqual (a b : String) : Bool :=
  match fromStr a, fromStr b with
  | some x, some y => x = y
  | _, _ => a = b

def AuditBody.equal : (a b : AuditBody) → Bool
  | .notFound, .notFound => true
  | .found x, .found y => jsonEqual fromStr x y
  | _, _ => false

end Compare

namespace Broker

/-- The job of a fetch; its id names the channel. -/
def newPrimary (id : Nat) (host method path : String) (now : Nat) : JobState :=
  { host := host, method := method, path := path, responder := some id, lease := none,
    attempts := 0, excludeNode := none, twinId := none, isTwin := false, created := now }

/-- The locked part of `fetch`: a fresh job with its channel, at the back of its
host's queue. -/
def fetch (broker : Broker) (host method path : String) (now : Nat) : Broker :=
  let id := broker.nextId
  let opened := { broker with nextId := id + 1, fetches := id :: broker.fetches }
  (opened.setJob id (newPrimary id host method path now)).pushBack host (id, none)

/-- The `while cap > 0 && i < q.len()` loop of `take_jobs`: entries excluded from
the node are stepped over, others leave the queue until the cap is used up. -/
def pick (node : Nat) : Nat → List (Nat × Option Nat) → List Nat × List (Nat × Option Nat)
  | 0, queue => ([], queue)
  | _ + 1, [] => ([], [])
  | cap + 1, entry :: queue =>
      if entry.2 = some node then
        let (picked, kept) := pick node (cap + 1) queue
        (picked, entry :: kept)
      else
        let (picked, kept) := pick node cap queue
        (entry.1 :: picked, kept)

/-- The local variables of `take_jobs`. -/
structure Dispatch where
  broker : Broker
  out : List Job
  newTwins : List (Nat × String × String × String)

/-- Everything `take_jobs` reads besides the broker. `activeNow` is the registry's
own clock reading; `dice n` answers the audit roll for the `n`-th job of this
call. -/
structure Poll where
  node : Nat
  pending : String → Nat
  now : Nat
  activeNow : Nat
  dice : Nat → Bool

/-- Lease one picked job. Entries can outlive their job; those are skipped. -/
def leaseJob (poll : Poll) (auditPossible : Bool) (dispatch : Dispatch) (id : Nat) : Dispatch :=
  match dispatch.broker.jobs id with
  | none => dispatch
  | some job =>
      { broker := dispatch.broker.setJob id
          { job with lease := some (poll.node, poll.now + leaseMs) }
        out := dispatch.out ++
          [{ id := id, host := job.host, method := job.method, path := job.path,
             leaseMs := leaseMs }]
        newTwins :=
          if !job.isTwin && job.twinId.isNone && auditPossible && poll.dice dispatch.out.length
          then dispatch.newTwins ++ [(id, job.host, job.method, job.path)]
          else dispatch.newTwins }

/-- Top one host up to the inflight target. -/
def takeHost (poll : Poll) (auditPossible : Bool) (dispatch : Dispatch) (host : String) :
    Dispatch :=
  match dispatch.broker.queues host with
  | none => dispatch
  | some queue =>
      let taken := pick poll.node (targetInflightPerHost - poll.pending host) queue
      taken.1.foldl (leaseJob poll auditPossible)
        { dispatch with broker := dispatch.broker.setQueue host taken.2 }

/-- The clone of a dispatched primary, kept off the node that holds it. -/
def newTwin (poll : Poll) (primaryId : Nat) (host method path : String) : JobState :=
  { host := host, method := method, path := path, responder := none, lease := none, attempts := 0,
    excludeNode := some poll.node, twinId := some primaryId, isTwin := true, created := poll.now }

/-- Point a primary at its twin, if it is still live. -/
def linkTwin (broker : Broker) (primaryId twinId : Nat) : Broker :=
  match broker.jobs primaryId with
  | none => broker
  | some job => broker.setJob primaryId { job with twinId := some twinId }

/-- Clone one dispatched primary for another node. -/
def createTwin (poll : Poll) (broker : Broker) : Nat × String × String × String → Broker
  | (primaryId, host, method, path) =>
      let twinId := broker.nextId
      let inserted := { broker with nextId := twinId + 1 }.setJob twinId
        (newTwin poll primaryId host method path)
      let queued := (inserted.linkTwin primaryId twinId).pushBack host (twinId, some poll.node)
      { queued.setAudit twinId
          { method := method, path := path, primaryNode := poll.node, twinNode := none,
            primary := none, twin := none } with
        primaryOf := Function.update queued.primaryOf twinId (some primaryId) }

/-- `take_jobs`, with the hosts in the order the queue map yields them. Returns the
jobs handed out. -/
def takeJobs (broker : Broker) (poll : Poll) (hosts : List String) : Broker × List Job :=
  let auditPossible := broker.registry.activeNodeOtherThan poll.node poll.activeNow
  let dispatch := hosts.foldl (takeHost poll auditPossible)
    { broker := broker, out := [], newTwins := [] }
  (dispatch.newTwins.foldl (createTwin poll) dispatch.broker, dispatch.out)

/-- Removes a job for good, resolving its future with an error and tearing down
any audit pairing it was part of. -/
def abandon (broker : Broker) (id : Nat) (why : String) : Broker :=
  match broker.jobs id with
  | none => broker
  | some job =>
      let resolved := (broker.removeJob id).send job.responder
        (.error ("job abandoned: " ++ why ++ " (" ++ job.path ++ ")"))
      if job.isTwin then resolved.removeAudit id
      else match job.twinId with
        | none => resolved
        | some twinId => (resolved.removeAudit twinId).removeJob twinId

/-- Puts a job back on its host queue. `countAttempt` for lease expiry. -/
def release (broker : Broker) (id : Nat) (countAttempt : Bool) : Broker :=
  match broker.jobs id with
  | none => broker
  | some job =>
      let unleased := broker.setJob id (job.unlease countAttempt)
      if countAttempt = true ∧ maxAttempts ≤ (job.unlease countAttempt).attempts then
        unleased.abandon id "lease expired too many times"
      else unleased.pushBack job.host (id, job.excludeNode)

section Audit

variable {Value : Type} [DecidableEq Value] (fromStr : String → Option Value)

/-- Compares a pair once both bodies are in and reports both nodes. -/
def finishAuditIfReady (broker : Broker) (twinId : Nat) : Broker :=
  match broker.audits twinId with
  | none => broker
  | some pair =>
      match pair.primary, pair.twin with
      | some a, some b =>
          let twinNode := pair.twinNode.getD 0
          let verdict :=
            if a.equal fromStr b then AuditVerdict.pass
            else if pair.method ∈ immutableMethods then .hardFail
            else .softFail
          { broker.removeAudit twinId with
            registry := broker.registry.auditResult pair.primaryNode twinNode verdict
            verdicts := broker.verdicts ++
              [{ twinId := twinId, primaryNode := pair.primaryNode, twinNode := twinNode,
                 primary := a, twin := b, verdict := verdict }] }
      | _, _ => broker

/-- Store a body in the audit pair keyed by `twinId`, if it is still open. -/
def setPairBody (broker : Broker) (twinId : Nat) (change : AuditPair → AuditPair) : Broker :=
  match broker.audits twinId with
  | none => broker
  | some pair => broker.setAudit twinId (change pair)

/-- File a body in the audit pair the job belongs to, if any. -/
def fileBody (broker : Broker) (node : Nat) (id : Nat) (job : JobState) (body : AuditBody) :
    Broker :=
  if job.isTwin then
    finishAuditIfReady fromStr
      (broker.setPairBody id fun pair => { pair with twinNode := some node, twin := some body }) id
  else match job.twinId with
    | none => broker
    | some twinId =>
        finishAuditIfReady fromStr
          (broker.setPairBody twinId fun pair => { pair with primary := some body }) twinId

/-- The registry and the leaderboard credit a node for a completed request. -/
def credit (broker : Broker) (node : Nat) (result : JobResult) (job : JobState)
    (body : AuditBody) (nowUnixMs : Nat) : Broker :=
  let isMatch : Bool := job.method = "match-v5.match" && result.outcome = .ok
  { broker with
    registry := broker.registry.jobCompleted node
    stats := broker.stats ++ [(node, isMatch, nowUnixMs)]
    uploads := Function.update broker.uploads result.id (some (node, body)) }

/-- The accepted `Ok` and `NotFound` branch of `complete`. -/
def deliver (broker : Broker) (node : Nat) (result : JobResult) (job : JobState)
    (body : AuditBody) (nowUnixMs : Nat) : Broker :=
  let resolved := (broker.removeJob result.id).send job.responder body.response
  fileBody fromStr (resolved.credit node result job body nowUnixMs) node result.id job body

/-- Flag the node whose key was rejected. -/
@[simps -fullyApplied]
def markKeyBad (broker : Broker) (node : Nat) : Broker :=
  { broker with registry := broker.registry.setKeyBad node true }

/-- `complete`: stale results (unknown id, or job leased to another node) are
ignored. -/
def complete (broker : Broker) (node : Nat) (result : JobResult) (nowUnixMs : Nat) : Broker :=
  match broker.jobs result.id with
  | none => broker
  | some job =>
      if job.accepts node then
        match result.auditBody with
        | some body => deliver fromStr broker node result job body nowUnixMs
        | none =>
            if result.outcome = .keyRejected then
              (broker.markKeyBad node).release result.id false
            else
              let failed := broker.setJob result.id job.failOnce
              if maxAttempts ≤ job.failOnce.attempts then
                failed.abandon result.id (result.error.getD "failed")
              else failed.release result.id false
      else broker

/-- Everything `complete` can do, with the guards of each branch. -/
inductive Completion (broker : Broker) (node : Nat) (result : JobResult) (nowUnixMs : Nat) :
    Broker → Prop where
  | stale (refused : ∀ job, broker.jobs result.id = some job → job.accepts node = false) :
      Completion broker node result nowUnixMs broker
  | delivered {job : JobState} {body : AuditBody} (live : broker.jobs result.id = some job)
      (accepted : job.accepts node = true) (filed : result.auditBody = some body) :
      Completion broker node result nowUnixMs
        (deliver fromStr broker node result job body nowUnixMs)
  | keyRejected {job : JobState} (live : broker.jobs result.id = some job)
      (accepted : job.accepts node = true) (outcome : result.outcome = .keyRejected) :
      Completion broker node result nowUnixMs
        ((broker.markKeyBad node).release result.id false)
  | exhausted {job : JobState} (live : broker.jobs result.id = some job)
      (accepted : job.accepts node = true) (outcome : result.outcome = .failed)
      (reached : maxAttempts ≤ job.failOnce.attempts) :
      Completion broker node result nowUnixMs
        ((broker.setJob result.id job.failOnce).abandon result.id (result.error.getD "failed"))
  | requeued {job : JobState} (live : broker.jobs result.id = some job)
      (accepted : job.accepts node = true) (outcome : result.outcome = .failed)
      (within : job.failOnce.attempts < maxAttempts) :
      Completion broker node result nowUnixMs
        ((broker.setJob result.id job.failOnce).release result.id false)

theorem complete_completion (broker : Broker) (node : Nat) (result : JobResult)
    (nowUnixMs : Nat) :
    Completion fromStr broker node result nowUnixMs
      (complete fromStr broker node result nowUnixMs) := by
  unfold complete
  cases live : broker.jobs result.id with
  | none => exact .stale fun job found => nomatch live.symm.trans found
  | some job =>
      by_cases accepted : job.accepts node = true
      · simp only [accepted, ↓reduceIte]
        cases filed : result.auditBody with
        | some body => exact .delivered live accepted filed
        | none =>
            cases outcome : result.outcome with
            | ok => simp only [JobResult.auditBody, outcome, reduceCtorEq] at filed
            | notFound => simp only [JobResult.auditBody, outcome, reduceCtorEq] at filed
            | keyRejected => exact .keyRejected live accepted outcome
            | failed =>
                by_cases reached : maxAttempts ≤ job.failOnce.attempts
                · simp only [reached, reduceCtorEq, ↓reduceIte]
                  exact .exhausted live accepted outcome reached
                · simp only [reached, reduceCtorEq, ↓reduceIte]
                  exact .requeued live accepted outcome (Nat.lt_of_not_le reached)
      · simp only [accepted, Bool.false_eq_true, ↓reduceIte]
        refine .stale fun current found => ?_
        rw [live, Option.some.injEq] at found
        exact found ▸ eq_false_of_ne_true accepted

end Audit

/-- The lease has run out. -/
def Expired (broker : Broker) (now : Nat) (id : Nat) : Prop :=
  ∃ job node expiry, broker.jobs id = some job ∧ job.lease = some (node, expiry) ∧ expiry ≤ now

/-- An unleased twin past its time to live. -/
def StaleTwin (broker : Broker) (now : Nat) (id : Nat) : Prop :=
  ∃ job, broker.jobs id = some job ∧ job.isTwin = true ∧ job.lease = none ∧
    twinTtl < now - job.created

instance (broker : Broker) (now id : Nat) : Decidable (broker.Expired now id) :=
  decidable_of_iff
    ((broker.jobs id).any fun job => job.lease.any fun lease => lease.2 ≤ now) <| by
      simp only [Option.any_eq_true, decide_eq_true_eq, Expired]
      constructor
      · rintro ⟨job, live, ⟨node, expiry⟩, held, lapsed⟩
        exact ⟨job, node, expiry, live, held, lapsed⟩
      · rintro ⟨job, node, expiry, live, held, lapsed⟩
        exact ⟨job, live, (node, expiry), held, lapsed⟩

instance (broker : Broker) (now id : Nat) : Decidable (broker.StaleTwin now id) :=
  decidable_of_iff
    ((broker.jobs id).any fun job => job.isTwin ∧ job.lease = none ∧
      twinTtl < now - job.created) <| by
      simp only [Option.any_eq_true, decide_eq_true_eq, StaleTwin]

/-- The first loop of `sweep`. -/
def releaseAll (broker : Broker) (expired : List Nat) : Broker :=
  expired.foldl (fun current id => current.release id true) broker

/-- The second loop of `sweep`. -/
def dropTwins (broker : Broker) (stale : List Nat) : Broker :=
  stale.foldl (fun current id => (current.removeJob id).removeAudit id) broker

/-- `sweep`, over the expired leases and then the stale twins in the order the job
map yields them. -/
def sweep (broker : Broker) (expired stale : List Nat) : Broker :=
  (broker.releaseAll expired).dropTwins stale

end Broker

/-- One atomic call on the broker or its registry, with the iteration orders and
clock readings it observes. -/
inductive Call where
  | fetch (host method path : String) (now : Nat)
  | takeJobs (poll : Broker.Poll) (hosts : List String)
  | complete (node : Nat) (result : JobResult) (nowUnixMs : Nat)
  | sweep (now : Nat) (expired stale : List Nat)
  | enrollRuntime (id : Nat) (name : String)
  | touch (id now : Nat)

namespace Broker

open Foundation

variable {Value : Type} [DecidableEq Value] (fromStr : String → Option Value)

/-- The iteration orders of a call list what the source iterates over. -/
def Admissible (broker : Broker) : Call → Prop
  | .takeJobs _ hosts => Enumerates hosts fun host => (broker.queues host).isSome
  | .sweep now expired stale =>
      Enumerates expired (broker.Expired now) ∧
        Enumerates stale ((broker.releaseAll expired).StaleTwin now)
  | _ => True

/-- The state after a call. -/
def apply (broker : Broker) : Call → Broker
  | .fetch host method path now => broker.fetch host method path now
  | .takeJobs poll hosts => (broker.takeJobs poll hosts).1
  | .complete node result nowUnixMs => complete fromStr broker node result nowUnixMs
  | .sweep _ expired stale => broker.sweep expired stale
  | .enrollRuntime id name => { broker with registry := broker.registry.enrollRuntime id name }
  | .touch id now => { broker with registry := broker.registry.touch id now }

/-- One call of any interleaving. -/
def Step (broker : Broker) (call : Call) (next : Broker) : Prop :=
  broker.Admissible call ∧ next = broker.apply fromStr call

/-- The state after a sequence of calls on a new broker. -/
def after (calls : List Call) : Broker :=
  calls.foldl (apply fromStr) new

/-- A poll on a broker with one queue visits its host. -/
theorem enumerates_host {broker : Broker} {host : String} (own : (broker.queues host).isSome)
    (rest : ∀ other, other ≠ host → broker.queues other = none) :
    Enumerates [host] fun other => (broker.queues other).isSome := by
  refine ⟨List.nodup_cons.mpr ⟨List.not_mem_nil, List.nodup_nil⟩, fun other => ?_⟩
  rw [List.mem_singleton]
  refine ⟨fun same => same ▸ own, fun (there : (broker.queues other).isSome) => ?_⟩
  refine Decidable.byContradiction fun distinct => ?_
  rw [rest other distinct] at there
  cases there

theorem step_after {calls : List Call} {call : Call}
    (admissible : (after fromStr calls).Admissible call) :
    Step fromStr (after fromStr calls) call (after fromStr (calls ++ [call])) := by
  refine ⟨admissible, ?_⟩
  unfold after
  rw [List.foldl_append]
  rfl

/-- Extend a run by one admissible call. -/
theorem run_after_concat {calls : List Call} (call : Call)
    (run : Run (Step fromStr) new calls (after fromStr calls))
    (admissible : (after fromStr calls).Admissible call) :
    Run (Step fromStr) new (calls ++ [call]) (after fromStr (calls ++ [call])) :=
  run.append (.cons (step_after fromStr admissible) (.nil _))

end Broker

end LolCrawler
