import Mathlib.Logic.Function.Basic
import Mathlib.Tactic.Simps.Basic
import LolCrawler.Broker.Calls
import LolCrawler.Node.RateLimiter

/-! # The executor of a node

Calls of `execute` run side by side. Between two awaits a call takes one step: an
iteration of an acquire loop, the send, the receipt of the answer, the adoption of a
header, the branch on the status, the end of a sleep. `set_api_key` takes two steps, as
it writes the key and the flag one after the other.

A registry makes a limiter when it is first asked for, with specs that are given
beforehand. `reserved`, `sends` and `rejected` are history only. A call in whose limiter
an index is out of bounds takes no further step.
-/

namespace LolCrawler.Node

open Foundation

/-- What the executor reads from the answer to a request. -/
structure Response where
  status : Nat
  /-- How the status is printed. -/
  shown : String
  /-- The windows in `X-App-Rate-Limit`. -/
  appLimit : Option (List WindowSpec)
  /-- The windows in `X-Method-Rate-Limit`. -/
  methodLimit : Option (List WindowSpec)
  retryAfter : Option Nat
  /-- `X-Rate-Limit-Type` names the method. -/
  methodLimited : Bool
  text : Except String String
deriving DecidableEq

/-- Riot rejects the key. -/
def Response.rejects (response : Response) : Bool :=
  response.status = 401 || response.status = 403

/-- Where a call of `execute` is. -/
inductive Phase where
  | method (loop : Loop)
  /-- The call holds a slot of the method limiter. -/
  | app (slot : Nat) (loop : Loop)
  | admitted (slot : Nat)
  | waiting (key : String)
  | answered (key : String) (response : Response)
  | adoptedApp (key : String) (response : Response)
  | adopted (key : String) (response : Response)
  | retrying (wake : Nat) (error : String)
  | returned (result : JobResult)
deriving DecidableEq

structure Call where
  job : Job
  attempts : Nat
  announced : Bool
  phase : Phase
deriving DecidableEq

/-- A host and a method on it. -/
abbrev Endpoint := String × String

def Call.endpoint (call : Call) : Endpoint := (call.job.host, call.job.method)

/-- The next round of the loop in `execute`. -/
def Call.again (call : Call) : Call :=
  { call with attempts := call.attempts + 1, phase := .method .started }

def Call.new (job : Job) : Call := Call.again ⟨job, 0, false, .method .started⟩

/-- A request on the wire. -/
structure Sent where
  /-- The slot of the method limiter it was sent for. -/
  slot : Nat
  time : Nat
deriving DecidableEq

structure Executor where
  apiKey : String
  /-- The calls of `set_api_key` that have written the key, and not the flag. -/
  updates : Nat
  keyBad : Bool
  app : String → Windows
  method : Endpoint → Windows
  calls : Nat → Option Call
  clock : Nat
  /-- When the slots of a method limiter were reserved. -/
  reserved : Endpoint → List Nat
  /-- The requests on the wire. -/
  sends : Endpoint → List Sent
  /-- The keys that Riot has rejected. -/
  rejected : List String

def defaultSpecs : List WindowSpec := [⟨20, 1000⟩, ⟨100, 120000⟩]

/-- An executor whose limiters start with these windows. -/
def Executor.withSpecs (apiKey : String) (app : String → List WindowSpec)
    (method : Endpoint → List WindowSpec) : Executor where
  apiKey := apiKey
  updates := 0
  keyBad := false
  app host := .new (app host)
  method endpoint := .new (method endpoint)
  calls _ := none
  clock := 0
  reserved _ := []
  sends _ := []
  rejected := []

def Executor.new (apiKey : String) : Executor :=
  .withSpecs apiKey (fun _ => defaultSpecs) fun _ => defaultSpecs

/-- A step of a call. -/
inductive Act where
  | acquire (gapMs : Nat)
  | send
  | answer (response : Response)
  | fault (error : String)
  | adopt
  | conclude
  | wake
deriving DecidableEq

inductive ExecutorEvent where
  | execute (id : Nat) (job : Job)
  | call (id now : Nat) (act : Act)
  | installKey (key : String)
  | clearKeyBad
deriving DecidableEq

namespace Executor

@[simps]
def put (executor : Executor) (id : Nat) (call : Call) : Executor :=
  { executor with calls := Function.update executor.calls id (some call) }

/-- A new state of a method limiter. -/
@[simps]
def setMethod (executor : Executor) (endpoint : Endpoint) (windows : Windows) : Executor :=
  { executor with method := Function.update executor.method endpoint windows }

/-- A new state of an app limiter. -/
@[simps]
def setApp (executor : Executor) (host : String) (windows : Windows) : Executor :=
  { executor with app := Function.update executor.app host windows }

/-- A slot of a method limiter is reserved. -/
@[simps]
def reserve (executor : Executor) (endpoint : Endpoint) (now : Nat) : Executor :=
  { executor with
    reserved := Function.update executor.reserved endpoint (executor.reserved endpoint ++ [now]) }

/-- An iteration of `method_limiter.acquire()`. -/
def acquireMethod (executor : Executor) (id now gapMs : Nat) (call : Call) : Option Executor :=
  match acquireOnce false now gapMs (executor.method call.endpoint) with
  | none => none
  | some (some d, windows) =>
      some ((executor.setMethod call.endpoint windows).put id
        { call with phase := .method (.sleeping (now + d + fromMillis 5)) })
  | some (none, windows) =>
      let slot := (executor.reserved call.endpoint).length
      some (((executor.setMethod call.endpoint windows).reserve call.endpoint now).put id
        { call with phase := .app slot .started })

/-- An iteration of `app_limiter.acquire()`. -/
def acquireApp (executor : Executor) (id now gapMs slot : Nat) (call : Call) : Option Executor :=
  match acquireOnce true now gapMs (executor.app call.job.host) with
  | none => none
  | some (some d, windows) =>
      some ((executor.setApp call.job.host windows).put id
        { call with phase := .app slot (.sleeping (now + d + fromMillis 5)) })
  | some (none, windows) =>
      some ((executor.setApp call.job.host windows).put id { call with phase := .admitted slot })

/-- `on_send`, the key, and the request. -/
def wire (executor : Executor) (id now slot : Nat) (call : Call) : Executor :=
  let sends := executor.sends call.endpoint ++ [⟨slot, now⟩]
  { executor with sends := Function.update executor.sends call.endpoint sends }.put id
    { call with announced := true, phase := .waiting executor.apiKey }

/-- Riot's answer to a request with this key. -/
def receive (executor : Executor) (id : Nat) (call : Call) (key : String) (response : Response) :
    Executor :=
  let rejected := if response.rejects then executor.rejected ++ [key] else executor.rejected
  { executor with rejected := rejected }.put id { call with phase := .answered key response }

/-- The header with the limit of the app. -/
def adoptApp (executor : Executor) (id : Nat) (call : Call) (key : String)
    (response : Response) : Executor :=
  let windows := executor.app call.job.host
  let windows := response.appLimit.elim windows fun specs => updateSpecs specs windows
  (executor.setApp call.job.host windows).put id { call with phase := .adoptedApp key response }

/-- The header with the limit of the method. -/
def adoptMethod (executor : Executor) (id : Nat) (call : Call) (key : String)
    (response : Response) : Executor :=
  let windows := executor.method call.endpoint
  let windows := response.methodLimit.elim windows fun specs => updateSpecs specs windows
  (executor.setMethod call.endpoint windows).put id { call with phase := .adopted key response }

/-- The cooldown of the layer that tripped. -/
def cool (executor : Executor) (now : Nat) (call : Call) (response : Response) : Executor :=
  let retryAfter := response.retryAfter.getD 10
  if response.methodLimited then
    executor.setMethod call.endpoint (cooldown now retryAfter (executor.method call.endpoint))
  else executor.setApp call.job.host (cooldown now retryAfter (executor.app call.job.host))

/-- The call returns. -/
def finish (executor : Executor) (id : Nat) (call : Call) (outcome : JobOutcome)
    (body error : Option String) : Executor :=
  executor.put id { call with phase := .returned ⟨call.job.id, outcome, body, error⟩ }

def fail (executor : Executor) (id : Nat) (call : Call) (error : String) : Executor :=
  executor.finish id call .failed none (some error)

/-- The sleep after an error of the server or of the request. -/
def backoff (executor : Executor) (id now : Nat) (call : Call) (error : String) : Executor :=
  executor.put id { call with phase := .retrying (now + fromSecs (5 * call.attempts)) error }

/-- The branch on the status. -/
def branch (executor : Executor) (id now : Nat) (call : Call) (response : Response) : Executor :=
  let status := response.status
  if 200 ≤ status ∧ status < 300 then
    match response.text with
    | .ok body => executor.finish id call .ok (some body) none
    | .error e => executor.fail id call s!"body read: {e}"
  else if status = 404 then executor.finish id call .notFound none none
  else if status = 429 then
    -- The attempt does not count; the budget is the fix.
    (executor.cool now call response).put id { call with attempts := call.attempts - 1 }.again
  else if response.rejects then
    { executor with keyBad := true }.finish id call .keyRejected none
      (some s!"riot returned {response.shown}")
  else if 500 ≤ status ∧ status ≤ 599 then
    executor.backoff id now call s!"{response.shown} after {call.attempts} attempts"
  else executor.fail id call s!"unexpected status {response.shown}"

/-- After the sleep. -/
def retry (executor : Executor) (id : Nat) (call : Call) (error : String) : Executor :=
  if 4 ≤ call.attempts then executor.fail id call error else executor.put id call.again

/-- The step of a call in the phase it is in. -/
def advance (executor : Executor) (id now : Nat) (call : Call) (act : Act) : Option Executor :=
  match call.phase, act with
  | .method loop, .acquire gapMs =>
      if loop.ready now then executor.acquireMethod id now gapMs call else none
  | .app slot loop, .acquire gapMs =>
      if loop.ready now then executor.acquireApp id now gapMs slot call else none
  | .admitted slot, .send => some (executor.wire id now slot call)
  | .waiting key, .answer response => some (executor.receive id call key response)
  | .waiting _, .fault error => some (executor.backoff id now call s!"request error: {error}")
  | .answered key response, .adopt => some (executor.adoptApp id call key response)
  | .adoptedApp key response, .adopt => some (executor.adoptMethod id call key response)
  | .adopted _ response, .conclude => some (executor.branch id now call response)
  | .retrying wake error, .wake =>
      if wake ≤ now then some (executor.retry id call error) else none
  | _, _ => none

/-- The clock of the executor never runs back. -/
def step (executor : Executor) : ExecutorEvent → Option Executor
  | .execute id job =>
      if executor.calls id = none then some (executor.put id (.new job)) else none
  | .call id now act =>
      match executor.calls id with
      | some call =>
          if executor.clock ≤ now then { executor with clock := now }.advance id now call act
          else none
      | none => none
  -- `*self.api_key.write().unwrap() = key`
  | .installKey key => some { executor with apiKey := key, updates := executor.updates + 1 }
  -- `self.key_bad.store(false, Ordering::Relaxed)`
  | .clearKeyBad =>
      if 0 < executor.updates then
        some { executor with keyBad := false, updates := executor.updates - 1 }
      else none

end Executor

end LolCrawler.Node
