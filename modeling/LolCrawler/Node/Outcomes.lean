import LolCrawler.Foundation.Retries
import LolCrawler.Node.Executor

/-! # What a call of the executor returns

Calls of `execute` share the limiters and the key, and each of them sees only how its own
requests end. `judge` is the retry policy as a function of these endings alone. However the
calls are interleaved, each returns what the policy makes of its own endings, and each has
at most four requests besides those that the rate limit turned down
(`execute_returns_settled`).
-/

namespace LolCrawler.Node

open Foundation

/-- How a request ended: with Riot's answer, or with an error of the request. -/
abbrev Ending := Except String Response

/-- The rate limit turned the request down. -/
def Ending.limited : Ending → Bool
  | .ok response => response.status = 429
  | .error _ => false

def failedResult (job : Job) (error : String) : JobResult := ⟨job.id, .failed, none, some error⟩

/-- An error that is tried again, up to the fourth. -/
def retryError (job : Job) (attempts : Nat) (error : String) : Except JobResult Nat :=
  if 4 ≤ attempts then .error (failedResult job error) else .ok attempts

/-- The retry policy of `execute`: so many attempts have counted when one more request ends. -/
def judge (job : Job) : Policy Ending JobResult
  | used, .error error => retryError job (used + 1) s!"request error: {error}"
  | used, .ok response =>
      let status := response.status
      if 200 ≤ status ∧ status < 300 then
        match response.text with
        | .ok body => .error ⟨job.id, .ok, some body, none⟩
        | .error e => .error (failedResult job s!"body read: {e}")
      else if status = 404 then .error ⟨job.id, .notFound, none, none⟩
      else if status = 429 then .ok used
      else if response.rejects then
        .error ⟨job.id, .keyRejected, none, some s!"riot returned {response.shown}"⟩
      else if 500 ≤ status ∧ status ≤ 599 then
        retryError job (used + 1) s!"{response.shown} after {used + 1} attempts"
      else .error (failedResult job s!"unexpected status {response.shown}")

/-- Four attempts count, and a request that the rate limit turned down is none of them. -/
theorem judge_bounded (job : Job) : (judge job).Bounded 4 Ending.limited where
  spared used ending limited := by
    cases ending with
    | error error => cases limited
    | ok response =>
        have status : response.status = 429 := of_decide_eq_true limited
        simp [judge, status]
  counted used ending later counts goes := by
    have retried : ∀ error, retryError job (used + 1) error = .ok later →
        later = used + 1 ∧ later < 4 := by
      intro error goes
      unfold retryError at goes
      split at goes
      · cases goes
      · cases goes
        exact ⟨rfl, by omega⟩
    cases ending with
    | error error => exact retried _ goes
    | ok response =>
        have status : ¬ response.status = 429 := of_decide_eq_false counts
        unfold judge at goes
        simp only [status, ↓reduceIte] at goes
        split at goes
        · cases text : response.text with
          | ok body =>
              rw [text] at goes
              cases goes
          | error e =>
              rw [text] at goes
              cases goes
        · split at goes
          · cases goes
          · split at goes
            · cases goes
            · split at goes
              · exact retried _ goes
              · cases goes

/-- What an answer of Riot says: the body, or that there is none. -/
def Response.Says (response : Response) : Option String → Prop
  | some body => 200 ≤ response.status ∧ response.status < 300 ∧ response.text = .ok body
  | none => response.status = 404

/-- A result is for the job, and what it says Riot has said. -/
structure Vouched (job : Job) (ending : Ending) (result : JobResult) : Prop where
  id : result.id = job.id
  ok : result.outcome = .ok → ∃ response body, ending = .ok response ∧ response.Says (some body) ∧
    result.body = some body
  notFound : result.outcome = .notFound → ∃ response, ending = .ok response ∧ response.Says none

/-- A failure needs no response. -/
theorem Vouched.failure {job : Job} {ending : Ending} {result : JobResult} (id : result.id = job.id)
    (failure : result.outcome = .failed ∨ result.outcome = .keyRejected) :
    Vouched job ending result where
  id := id
  ok good := by
    rw [good] at failure
    rcases failure with bad | bad
    · cases bad
    · cases bad
  notFound good := by
    rw [good] at failure
    rcases failure with bad | bad
    · cases bad
    · cases bad

/-- A failed attempt vouches for its failure. -/
theorem retryError_vouched {job : Job} {attempts : Nat} {error : String} {result : JobResult}
    {ending : Ending} (returned : retryError job attempts error = .error result) :
    Vouched job ending result := by
  unfold retryError at returned
  split at returned
  · cases returned
    exact .failure rfl (.inl rfl)
  · cases returned

/-- An ending vouches for the result that is made of it. -/
theorem judge_vouched {job : Job} {used : Nat} {ending : Ending} {result : JobResult}
    (returned : judge job used ending = .error result) : Vouched job ending result := by
  cases ending with
  | error error => exact retryError_vouched returned
  | ok response =>
      unfold judge at returned
      dsimp only at returned
      split at returned
      · next success =>
          cases text : response.text with
          | ok body =>
              rw [text] at returned
              cases returned
              exact ⟨rfl, fun _ => ⟨response, body, rfl, ⟨success.1, success.2, text⟩, rfl⟩, nofun⟩
          | error e =>
              rw [text] at returned
              cases returned
              exact .failure rfl (.inl rfl)
      · split at returned
        · next missing =>
            cases returned
            exact ⟨rfl, nofun, fun _ => ⟨response, rfl, missing⟩⟩
        · split at returned
          · cases returned
          · split at returned
            · cases returned
              exact .failure rfl (.inr rfl)
            · split at returned
              · exact retryError_vouched returned
              · cases returned
                exact .failure rfl (.inl rfl)

/-! ## Every call and its endings -/

/-- The executor, and a history: how the requests of each call have ended so far. -/
structure Journal where
  executor : Executor
  endings : Nat → List Ending

/-- How the request ends in this step, if it does. -/
def Act.ending : Act → Option Ending
  | .answer response => some (.ok response)
  | .fault error => some (.error error)
  | _ => none

/-- What a step adds to the endings of a call. -/
def noted (endings : Nat → List Ending) : ExecutorEvent → Nat → List Ending
  | .call id _ act => Function.update endings id (endings id ++ act.ending.toList)
  | _ => endings

def Journal.step (journal : Journal) (event : ExecutorEvent) : Option Journal :=
  (journal.executor.step event).map fun executor => ⟨executor, noted journal.endings event⟩

def Journal.withSpecs (apiKey : String) (app : String → List WindowSpec)
    (method : Endpoint → List WindowSpec) : Journal :=
  ⟨.withSpecs apiKey app method, fun _ => []⟩

def JournalStep (journal : Journal) (event : ExecutorEvent) (next : Journal) : Prop :=
  journal.step event = some next

/-- The call is on its way to a request, or waits for the answer. -/
def Phase.asks : Phase → Bool
  | .method _ | .app _ _ | .admitted _ | .waiting _ => true
  | _ => false

/-- The endings of a call lead to where it is. -/
def Call.Told (call : Call) (endings : List Ending) : Prop :=
  match call.phase with
  | .method _ | .app _ _ | .admitted _ | .waiting _ =>
      ∃ used, (judge call.job).settle endings = .ok used ∧ call.attempts = used + 1
  | .answered _ response | .adoptedApp _ response | .adopted _ response =>
      ∃ used earlier, (judge call.job).settle earlier = .ok used ∧ call.attempts = used + 1 ∧
        endings = earlier ++ [.ok response]
  | .retrying _ error =>
      ∃ used earlier ending, (judge call.job).settle earlier = .ok used ∧
        call.attempts = used + 1 ∧ endings = earlier ++ [ending] ∧
          judge call.job used ending = retryError call.job call.attempts error
  | .returned result =>
      ∃ used earlier ending, (judge call.job).settle earlier = .ok used ∧
        endings = earlier ++ [ending] ∧ judge call.job used ending = .error result

/-- A call takes a step, and the endings lead to where it gets. -/
def Goes (executor : Executor) (id : Nat) (call : Call) (endings : List Ending)
    (next : Executor) : Prop :=
  ∃ changed : Call, next.calls = Function.update executor.calls id (some changed) ∧
    changed.job = call.job ∧ changed.Told endings

section Steps

variable {executor next : Executor} {id now gapMs : Nat} {call : Call} {endings : List Ending}

/-- A call that is on its way to its next request. -/
theorem Goes.onward {used : Nat} (settled : (judge call.job).settle endings = .ok used)
    (attempts : call.attempts = used + 1) {phase : Phase}
    (calls : next.calls = Function.update executor.calls id (some { call with phase := phase }))
    (asks : (∃ loop, phase = .method loop) ∨ (∃ slot loop, phase = .app slot loop) ∨
      (∃ slot, phase = .admitted slot)) : Goes executor id call endings next := by
  have told : ∀ phase, ((∃ loop, phase = Phase.method loop) ∨
      (∃ slot loop, phase = Phase.app slot loop) ∨ ∃ slot, phase = Phase.admitted slot) →
      Call.Told { call with phase := phase } endings := by
    intro phase asks
    rcases asks with ⟨loop, same⟩ | ⟨slot, loop, same⟩ | ⟨slot, same⟩
    · rw [same]
      exact ⟨used, settled, attempts⟩
    · rw [same]
      exact ⟨used, settled, attempts⟩
    · rw [same]
      exact ⟨used, settled, attempts⟩
  exact ⟨_, calls, rfl, told phase asks⟩

/-- An acquisition of the method limiter goes on, or ends the call. -/
theorem acquireMethod_goes {used : Nat} (settled : (judge call.job).settle endings = .ok used)
    (attempts : call.attempts = used + 1)
    (done : executor.acquireMethod id now gapMs call = some next) :
    Goes executor id call endings next := by
  unfold Executor.acquireMethod at done
  split at done
  · cases done
  · cases done
    exact Goes.onward settled attempts rfl (.inl ⟨_, rfl⟩)
  · cases done
    exact Goes.onward settled attempts rfl (.inr (.inl ⟨_, _, rfl⟩))

/-- An acquisition of the app limiter goes on, or ends the call. -/
theorem acquireApp_goes {used slot : Nat} (settled : (judge call.job).settle endings = .ok used)
    (attempts : call.attempts = used + 1)
    (done : executor.acquireApp id now gapMs slot call = some next) :
    Goes executor id call endings next := by
  unfold Executor.acquireApp at done
  split at done
  · cases done
  · cases done
    exact Goes.onward settled attempts rfl (.inr (.inl ⟨_, _, rfl⟩))
  · cases done
    exact Goes.onward settled attempts rfl (.inr (.inr ⟨_, rfl⟩))

/-- A cooldown leaves the calls alone. -/
theorem cool_calls (executor : Executor) (now : Nat) (call : Call) (response : Response) :
    (executor.cool now call response).calls = executor.calls := by
  unfold Executor.cool
  dsimp only
  split <;> rfl

/-- The branch on the status decides as the policy does. -/
theorem branch_goes {used : Nat} {response : Response} {earlier : List Ending}
    (settled : (judge call.job).settle earlier = .ok used) (attempts : call.attempts = used + 1) :
    Goes executor id call (earlier ++ [.ok response])
      (executor.branch id now call response) := by
  have returns : ∀ {result : JobResult}, judge call.job used (.ok response) = .error result →
      Call.Told { call with phase := .returned result } (earlier ++ [.ok response]) :=
    fun same => ⟨used, earlier, .ok response, settled, rfl, same⟩
  unfold Executor.branch
  dsimp only
  by_cases success : 200 ≤ response.status ∧ response.status < 300
  · rw [if_pos success]
    cases text : response.text with
    | ok body =>
        exact ⟨_, rfl, rfl, returns (by simp only [judge, success, and_self, ↓reduceIte, text])⟩
    | error e =>
        exact ⟨_, rfl, rfl, returns (by
          simp only [judge, success, and_self, ↓reduceIte, text]
          rfl)⟩
  · rw [if_neg success]
    by_cases missing : response.status = 404
    · rw [if_pos missing]
      have judged : judge call.job used (.ok response) =
          .error ⟨call.job.id, .notFound, none, none⟩ := by
        unfold judge
        dsimp only
        rw [if_neg success, if_pos missing]
      exact ⟨_, rfl, rfl, returns judged⟩
    · rw [if_neg missing]
      by_cases limited : response.status = 429
      · have free : judge call.job used (.ok response) = .ok used := by
          unfold judge
          dsimp only
          rw [if_neg success, if_neg missing, if_pos limited]
        rw [if_pos limited]
        have counted : ({ call with attempts := call.attempts - 1 } : Call).again.attempts =
            used + 1 := by
          simp only [Call.again]
          omega
        have judged := (Policy.settle_concat settled (.ok response : Ending)).trans free
        have told : ({ call with attempts := call.attempts - 1 } : Call).again.Told
            (earlier ++ [.ok response]) := ⟨used, judged, counted⟩
        exact ⟨_, congrArg (Function.update · id _) (cool_calls executor now call response), rfl,
          told⟩
      · rw [if_neg limited]
        by_cases rejects : response.rejects = true
        · rw [if_pos rejects]
          exact ⟨_, rfl, rfl, returns (by
            simp only [judge, success, ↓reduceIte, missing, limited, rejects])⟩
        · rw [if_neg rejects]
          by_cases broken : 500 ≤ response.status ∧ response.status ≤ 599
          · rw [if_pos broken]
            have retried : judge call.job used (.ok response) = retryError call.job call.attempts
                s!"{response.shown} after {call.attempts} attempts" := by
              simp only [judge, success, ↓reduceIte, missing, limited, rejects, broken, and_self,
                attempts]
              rfl
            exact ⟨_, rfl, rfl, used, earlier, _, settled, attempts, rfl, retried⟩
          · rw [if_neg broken]
            exact ⟨_, rfl, rfl, returns (by
              simp only [judge, success, ↓reduceIte, missing, limited, rejects, broken]
              rfl)⟩

/-- An act of a call brings it on its way with the ending it adds. -/
theorem advance_goes {act : Act} (told : call.Told endings)
    (done : executor.advance id now call act = some next) :
    Goes executor id call (endings ++ act.ending.toList) next := by
  unfold Call.Told at told
  unfold Executor.advance at done
  split at done
  · next loop gapMs phase =>
      rw [phase] at told
      obtain ⟨used, settled, counted⟩ := told
      rw [Act.ending, Option.toList_none, List.append_nil]
      split at done
      · exact acquireMethod_goes settled counted done
      · cases done
      all_goals nofun
  · next slot loop gapMs phase =>
      rw [phase] at told
      obtain ⟨used, settled, counted⟩ := told
      rw [Act.ending, Option.toList_none, List.append_nil]
      split at done
      · exact acquireApp_goes settled counted done
      · cases done
      all_goals nofun
  · next slot phase =>
      cases done
      rw [phase] at told
      exact ⟨_, rfl, rfl, by simpa [Call.Told, Act.ending] using told⟩
  · next key response phase =>
      cases done
      rw [phase] at told
      obtain ⟨used, settled, counted⟩ := told
      exact ⟨_, rfl, rfl, used, endings, settled, counted, rfl⟩
  · next key error phase =>
      cases done
      rw [phase] at told
      obtain ⟨used, settled, counted⟩ := told
      have retried : judge call.job used (.error error) =
          retryError call.job call.attempts s!"request error: {error}" := by
        rw [counted]
        rfl
      exact ⟨_, rfl, rfl, used, endings, _, settled, counted, rfl, retried⟩
  · next key response phase =>
      cases done
      rw [phase] at told
      exact ⟨_, rfl, rfl, by simpa [Call.Told, Act.ending] using told⟩
  · next key response phase =>
      cases done
      rw [phase] at told
      exact ⟨_, rfl, rfl, by simpa [Call.Told, Act.ending] using told⟩
  · next key response phase =>
      cases done
      rw [phase] at told
      obtain ⟨used, earlier, settled, counted, same⟩ := told
      rw [Act.ending, Option.toList_none, List.append_nil, same]
      exact branch_goes settled counted
      all_goals nofun
  · next wake error phase =>
      rw [phase] at told
      obtain ⟨used, earlier, ending, settled, counted, same, retried⟩ := told
      split at done
      · cases done
        rw [Act.ending, Option.toList_none, List.append_nil, same]
        unfold Executor.retry
        unfold retryError at retried
        split
        · next last =>
            rw [if_pos last] at retried
            exact ⟨_, rfl, rfl, used, earlier, ending, settled, rfl, retried⟩
        · next more =>
            rw [if_neg more] at retried
            have judged := (Policy.settle_concat settled ending).trans retried
            exact ⟨_, rfl, rfl, call.attempts, judged, rfl⟩
        all_goals nofun
      · cases done
  · cases done

/-- Every call is where its endings lead, and a call that is not made yet has none. -/
structure Journal.Told (journal : Journal) : Prop where
  made : ∀ id call, journal.executor.calls id = some call → call.Told (journal.endings id)
  unmade : ∀ id, journal.executor.calls id = none → journal.endings id = []

/-- At the start there is nothing to tell. -/
theorem Journal.Told.new (apiKey : String) (app : String → List WindowSpec)
    (method : Endpoint → List WindowSpec) : (Journal.withSpecs apiKey app method).Told where
  made id call there := by cases there
  unmade id _ := rfl

/-- A new call has nothing to tell. -/
theorem Journal.Told.execute {journal : Journal} (told : journal.Told) {id : Nat}
    (free : journal.executor.calls id = none) (job : Job) :
    Journal.Told ⟨journal.executor.put id (.new job), journal.endings⟩ where
  made other call there := by
    change (journal.executor.put id (.new job)).calls other = some call at there
    rw [Executor.put_calls, Function.update_apply] at there
    split at there
    · next same =>
        cases there
        rw [same]
        exact ⟨0, congrArg _ (told.unmade id free), rfl⟩
    · exact told.made other call there
  unmade other absent := by
    change (journal.executor.put id (.new job)).calls other = none at absent
    rw [Executor.put_calls, Function.update_apply] at absent
    split at absent
    · cases absent
    · exact told.unmade other absent

/-- A call that goes on tells what it has met. -/
theorem Journal.Told.goes {journal : Journal} (told : journal.Told) {id : Nat} {call : Call}
    {act : Act} {next : Executor}
    (goes : Goes journal.executor id call (journal.endings id ++ act.ending.toList) next) :
    Journal.Told ⟨next, noted journal.endings (.call id 0 act)⟩ := by
  obtain ⟨changed, calls, -, after⟩ := goes
  constructor
  · intro other found there
    change next.calls other = some found at there
    change found.Told (Function.update journal.endings id _ other)
    rw [calls, Function.update_apply] at there
    rw [Function.update_apply]
    split at there
    · next same =>
        cases there
        rw [if_pos same]
        exact after
    · next different =>
        rw [if_neg different]
        exact told.made other found there
  · intro other absent
    change next.calls other = none at absent
    change Function.update journal.endings id _ other = []
    rw [calls, Function.update_apply] at absent
    rw [Function.update_apply]
    split at absent
    · cases absent
    · next different =>
        rw [if_neg different]
        exact told.unmade other absent

/-- **One step** tells what it has met. -/
theorem Journal.Told.step {journal next : Journal} {event : ExecutorEvent} (told : journal.Told)
    (step : JournalStep journal event next) : next.Told := by
  obtain ⟨executor, done, rfl⟩ := Option.map_eq_some_iff.mp step
  cases event with
  | execute id job =>
      rw [Executor.step] at done
      split at done
      · next free =>
          cases done
          exact told.execute free job
      · cases done
  | call id now act =>
      rw [Executor.step] at done
      split at done
      · next call there =>
          split at done
          · obtain ⟨changed, calls, job, after⟩ := advance_goes (told.made id call there) done
            exact told.goes ⟨changed, calls, job, after⟩
          · cases done
      · cases done
  | installKey key =>
      cases done
      exact ⟨told.made, told.unmade⟩
  | clearKeyBad =>
      rw [Executor.step] at done
      split at done
      · cases done
        exact ⟨told.made, told.unmade⟩
      · cases done

end Steps

/-- A call has at most four requests that count. -/
theorem Call.Told.length_le {call : Call} {endings : List Ending} (told : call.Told endings) :
    endings.length ≤ 4 + endings.countP Ending.limited := by
  have bounded := judge_bounded call.job
  have before : ∀ {used}, (judge call.job).settle endings = .ok used →
      endings.length ≤ 4 + endings.countP Ending.limited := by
    intro used settled
    obtain ⟨length, below⟩ := bounded.used_eq (Nat.succ_pos 3) settled
    omega
  have last : ∀ {used earlier ending}, (judge call.job).settle earlier = .ok used →
      endings = earlier ++ [ending] → endings.length ≤ 4 + endings.countP Ending.limited := by
    intro used earlier ending settled same
    rw [same]
    exact bounded.length_le (Nat.succ_pos 3) settled ending
  unfold Call.Told at told
  split at told
  · exact before told.choose_spec.1
  · exact before told.choose_spec.1
  · exact before told.choose_spec.1
  · exact before told.choose_spec.1
  · obtain ⟨used, earlier, settled, -, same⟩ := told
    exact last settled same
  · obtain ⟨used, earlier, settled, -, same⟩ := told
    exact last settled same
  · obtain ⟨used, earlier, settled, -, same⟩ := told
    exact last settled same
  · obtain ⟨used, earlier, ending, settled, -, same, -⟩ := told
    exact last settled same
  · obtain ⟨used, earlier, ending, settled, same, -⟩ := told
    exact last settled same

/-- What a call has returned is what the policy makes of its endings. -/
theorem Call.Told.returned {call : Call} {endings : List Ending} (told : call.Told endings)
    {result : JobResult} (returned : call.phase = .returned result) :
    (judge call.job).settle endings = .error result := by
  unfold Call.Told at told
  rw [returned] at told
  obtain ⟨used, earlier, ending, settled, same, judged⟩ := told
  rw [same]
  exact (Policy.settle_concat settled ending).trans judged

/-- A call that has not returned has not been told a result, or has yet to act on it. -/
theorem Call.Told.pending {call : Call} {endings : List Ending} (told : call.Told endings)
    (asks : call.phase.asks = true) :
    ∃ used, (judge call.job).settle endings = .ok used ∧ call.attempts = used + 1 := by
  unfold Call.Told at told
  cases phase : call.phase with
  | method loop =>
      rw [phase] at told
      exact told
  | app slot loop =>
      rw [phase] at told
      exact told
  | admitted slot =>
      rw [phase] at told
      exact told
  | waiting key =>
      rw [phase] at told
      exact told
  | _ =>
      rw [phase] at asks
      cases asks

/-- **What a call returns.** In every run of the executor, with any number of calls side by side, a
call that has returned gave the result that the retry policy makes of how its own requests ended;
one that is on its way to a request or waits for an answer has not been told a result; and no call
has more than four requests besides those that the rate limit turned down. -/
theorem execute_returns_settled {apiKey : String} {app : String → List WindowSpec}
    {method : Endpoint → List WindowSpec} {events : List ExecutorEvent} {journal : Journal}
    (run : Run JournalStep (.withSpecs apiKey app method) events journal) {id : Nat} {call : Call}
    (there : journal.executor.calls id = some call) :
    (∀ result, call.phase = .returned result →
      (judge call.job).settle (journal.endings id) = .error result) ∧
    (call.phase.asks = true → ∃ used, (judge call.job).settle (journal.endings id) = .ok used ∧
      call.attempts = used + 1) ∧
    (journal.endings id).length ≤ 4 + (journal.endings id).countP Ending.limited := by
  have told := run.invariant Journal.Told (fun _ _ _ told step => told.step step)
    (.new apiKey app method)
  have told := told.made id call there
  exact ⟨fun result returned => told.returned returned, told.pending, told.length_le⟩

def roomy : List WindowSpec := [⟨100, 1000⟩]

def answered (status : Nat) (shown : String) : Response :=
  ⟨status, shown, none, none, none, false, .ok ""⟩

/-- A call whose first request Riot cannot serve, and whose second finds nothing. -/
def onSecondAttempt : List ExecutorEvent :=
  [.execute 0 ⟨7, "euw1", "league-by-puuid", "/path", 150000⟩,
    .call 0 0 (.acquire 10), .call 0 0 (.acquire 10), .call 0 0 .send,
    .call 0 1000 (.answer (answered 503 "503 Service Unavailable")), .call 0 1000 .adopt,
    .call 0 1000 .adopt, .call 0 1000 .conclude,
    .call 0 5000001000 .wake, .call 0 5000001000 (.acquire 10), .call 0 5000001000 (.acquire 10),
    .call 0 5000001000 .send, .call 0 5000002000 (.answer (answered 404 "404 Not Found")),
    .call 0 5000002000 .adopt, .call 0 5000002000 .adopt, .call 0 5000002000 .conclude]

/-- Two requests of the call count. -/
theorem execute_returns_settled_second : ∃ journal call,
    Run JournalStep (.withSpecs "key" (fun _ => roomy) fun _ => roomy) onSecondAttempt journal ∧
    journal.executor.calls 0 = some call ∧
    (judge call.job).settle (journal.endings 0) = .error ⟨7, .notFound, none, none⟩ ∧
    (journal.endings 0).length ≤ 4 + (journal.endings 0).countP Ending.limited := by
  have done : (follow Journal.step (fun _ _ => true)
      (.withSpecs "key" (fun _ => roomy) fun _ => roomy) onSecondAttempt).any fun journal =>
        (journal.executor.calls 0).any fun call =>
          call.phase = .returned ⟨7, .notFound, none, none⟩ := by
    decide
  obtain ⟨journal, run, found⟩ := run_of_follow done
  obtain ⟨call, there, returned⟩ := (Option.any_eq_true _ _).mp found
  have steps := run.mono fun _ _ _ step => step.1
  have settled := execute_returns_settled steps there
  exact ⟨journal, call, steps, there, settled.1 _ (of_decide_eq_true returned), settled.2.2⟩

end LolCrawler.Node
