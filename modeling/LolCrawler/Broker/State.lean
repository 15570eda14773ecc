import Mathlib.Logic.Function.Basic
import Mathlib.Tactic.Simps.Basic
import LolCrawler.Foundation.Run

/-! # The fetch broker's job table

The broker bridges the crawl side, which awaits the body of one GET at a time,
and the node fleet, which pulls jobs and uploads results. Its state is a job
table, one queue of unleased job ids per routing host, and the audit pairs under
comparison. The oneshot channel of a fetch is named by the id of the job the
fetch created, and `Broker.channels` holds what was sent on it.

Hash maps are functions into `Option`; wherever the source iterates over one, the
order of iteration is an argument of the call (`LolCrawler.Call`).
-/

namespace LolCrawler

/-- Per-node, per-host inflight target. -/
def targetInflightPerHost : Nat := 8

/-- A job is abandoned after this many failed attempts across nodes. -/
def maxAttempts : Nat := 6

/-- Unserved audit twins older than this many milliseconds are dropped. -/
def twinTtl : Nat := 600 * 1000

/-- A job handed to a node must be answered within this window. -/
def leaseMs : Nat := 150000

/-- A node counts as active if it polled within this window. -/
def activeWindow : Nat := 600 * 1000

/-- Endpoints whose audit bodies must match exactly. -/
def immutableMethods : List String := ["match-v5.match", "match-v5.timeline"]

/-- `Ok(Some(body))`, `Ok(None)` for a definitive 404, or the error text. -/
abbrev FetchResult := Except String (Option String)

structure JobState where
  host : String
  method : String
  path : String
  /-- The channel of the crawl-side future; `none` for audit twins. -/
  responder : Option Nat
  lease : Option (Nat × Nat)
  attempts : Nat
  excludeNode : Option Nat
  twinId : Option Nat
  isTwin : Bool
  created : Nat
deriving DecidableEq

/-- A completed fetch body as the audit comparator sees it. -/
inductive AuditBody where
  | found (body : String)
  | notFound
deriving DecidableEq

/-- Keyed by twin job id in `Broker.audits`. -/
structure AuditPair where
  method : String
  path : String
  primaryNode : Nat
  twinNode : Option Nat
  primary : Option AuditBody
  twin : Option AuditBody
deriving DecidableEq

inductive AuditVerdict where
  | pass
  | hardFail
  | softFail
deriving DecidableEq

/-- The runtime view of one enrolled node. -/
structure NodeRt where
  name : String
  lastSeen : Option Nat
  completed : Nat
  auditsPass : Nat
  auditsHardFail : Nat
  auditsSoftFail : Nat
  keyBad : Bool
deriving DecidableEq

/-- One entry per node id. -/
abbrev Registry := List (Nat × NodeRt)

namespace Registry

/-- `get_mut` on the node map. -/
def modify (registry : Registry) (id : Nat) (change : NodeRt → NodeRt) : Registry :=
  registry.map fun entry => if entry.1 = id then (entry.1, change entry.2) else entry

def enrollRuntime (registry : Registry) (id : Nat) (name : String) : Registry :=
  registry.filter (fun entry => entry.1 ≠ id) ++
    [(id, { name := name, lastSeen := none, completed := 0, auditsPass := 0,
            auditsHardFail := 0, auditsSoftFail := 0, keyBad := false })]

def touch (registry : Registry) (id now : Nat) : Registry :=
  registry.modify id fun node => { node with lastSeen := some now }

def jobCompleted (registry : Registry) (id : Nat) : Registry :=
  registry.modify id fun node => { node with completed := node.completed + 1, keyBad := false }

def setKeyBad (registry : Registry) (id : Nat) (bad : Bool) : Registry :=
  registry.modify id fun node => { node with keyBad := bad }

def countVerdict (verdict : AuditVerdict) (node : NodeRt) : NodeRt :=
  match verdict with
  | .pass => { node with auditsPass := node.auditsPass + 1 }
  | .hardFail => { node with auditsHardFail := node.auditsHardFail + 1 }
  | .softFail => { node with auditsSoftFail := node.auditsSoftFail + 1 }

/-- Both participants of an audit get the verdict. -/
def auditResult (registry : Registry) (a b : Nat) (verdict : AuditVerdict) : Registry :=
  (registry.modify a (countVerdict verdict)).modify b (countVerdict verdict)

/-- Is any other node active? -/
def activeNodeOtherThan (registry : Registry) (id now : Nat) : Bool :=
  registry.any fun entry =>
    entry.1 ≠ id && entry.2.lastSeen.any fun seen => now - seen < activeWindow

end Registry

/-- One call of `Registry::audit_result`, with the bodies it was decided on. -/
structure VerdictEvent where
  twinId : Nat
  primaryNode : Nat
  twinNode : Nat
  primary : AuditBody
  twin : AuditBody
  verdict : AuditVerdict
deriving DecidableEq

/-- The broker, the registry it reports to, and the history of its effects.

`fetches`, `uploads`, `primaryOf` and `verdicts` are history only: the channels
opened so far, the node and body of the result accepted for a job, the primary a
twin was cloned from, and the verdicts recorded. No function of the source reads
them. -/
structure Broker where
  nextId : Nat
  jobs : Nat → Option JobState
  queues : String → Option (List (Nat × Option Nat))
  audits : Nat → Option AuditPair
  registry : Registry
  /-- The `Stats::record` calls: node, whether a match body, unix time. -/
  stats : List (Nat × Bool × Nat)
  channels : Nat → Option FetchResult
  fetches : List Nat
  uploads : Nat → Option (Nat × AuditBody)
  primaryOf : Nat → Option Nat
  verdicts : List VerdictEvent

namespace Broker

/-- `Broker::new` over an empty registry. -/
def new : Broker where
  nextId := 1
  jobs := fun _ => none
  queues := fun _ => none
  audits := fun _ => none
  registry := []
  stats := []
  channels := fun _ => none
  fetches := []
  uploads := fun _ => none
  primaryOf := fun _ => none
  verdicts := []

/-- `jobs.insert`, and the write-back of `jobs.get_mut`. -/
@[simps -fullyApplied]
def setJob (broker : Broker) (id : Nat) (job : JobState) : Broker :=
  { broker with jobs := Function.update broker.jobs id (some job) }

/-- `jobs.remove`. -/
@[simps -fullyApplied]
def removeJob (broker : Broker) (id : Nat) : Broker :=
  { broker with jobs := Function.update broker.jobs id none }

/-- `audits.remove`. -/
@[simps -fullyApplied]
def removeAudit (broker : Broker) (id : Nat) : Broker :=
  { broker with audits := Function.update broker.audits id none }

/-- `audits.insert`, and the write-back of `audits.get_mut`. -/
@[simps -fullyApplied]
def setAudit (broker : Broker) (id : Nat) (pair : AuditPair) : Broker :=
  { broker with audits := Function.update broker.audits id (some pair) }

@[simps -fullyApplied]
def setQueue (broker : Broker) (host : String) (queue : List (Nat × Option Nat)) : Broker :=
  { broker with queues := Function.update broker.queues host (some queue) }

/-- `queues.entry(host).or_default().push_back(entry)`. -/
@[simps! -fullyApplied]
def pushBack (broker : Broker) (host : String) (entry : Nat × Option Nat) : Broker :=
  broker.setQueue host ((broker.queues host).getD [] ++ [entry])

/-- `tx.send` on a job's responder, if it has one. -/
def send (broker : Broker) (responder : Option Nat) (result : FetchResult) : Broker :=
  match responder with
  | none => broker
  | some channel =>
      { broker with channels := Function.update broker.channels channel (some result) }

section Send

variable (broker : Broker) (responder : Option Nat) (result : FetchResult)

@[simp] theorem send_jobs : (broker.send responder result).jobs = broker.jobs := by
  cases responder <;> rfl

@[simp] theorem send_queues : (broker.send responder result).queues = broker.queues := by
  cases responder <;> rfl

@[simp] theorem send_nextId : (broker.send responder result).nextId = broker.nextId := by
  cases responder <;> rfl

@[simp] theorem send_fetches : (broker.send responder result).fetches = broker.fetches := by
  cases responder <;> rfl

@[simp] theorem send_audits : (broker.send responder result).audits = broker.audits := by
  cases responder <;> rfl

@[simp] theorem send_uploads : (broker.send responder result).uploads = broker.uploads := by
  cases responder <;> rfl

@[simp] theorem send_primaryOf : (broker.send responder result).primaryOf = broker.primaryOf := by
  cases responder <;> rfl

@[simp] theorem send_verdicts : (broker.send responder result).verdicts = broker.verdicts := by
  cases responder <;> rfl

end Send

end Broker

end LolCrawler
