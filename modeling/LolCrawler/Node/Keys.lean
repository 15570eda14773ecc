import LolCrawler.Node.Executor

/-! # The pause on a rejected key

The executor raises a flag when Riot rejects a key, and the work loop looks at the flag
before it asks for work. A loop that finds it raised waits until the config file changes,
and installs the key it reads there.

The flag does not say which key raised it. It is about the installed key as long as every
rejection comes while the key of its request is installed, or another that was rejected.
-/

namespace LolCrawler.Node

open Foundation

/-- Where the work loop is. -/
inductive WorkLoop where
  | working
  | paused
  /-- Between the two writes of `set_api_key`. -/
  | installing
deriving DecidableEq

structure Worker where
  executor : Executor
  loop : WorkLoop
  keyMtime : Option Nat

inductive WorkerEvent where
  | executor (event : ExecutorEvent)
  /-- `key_bad` is read. -/
  | look
  /-- The pause is over, and the config file has this time and this key. -/
  | wake (mtime : Option Nat) (fresh : Option String)
  | installed
deriving DecidableEq

namespace Worker

def new (key : String) (keyMtime : Option Nat) : Worker := ⟨.new key, .working, keyMtime⟩

def step (worker : Worker) : WorkerEvent → Option Worker
  | .executor event =>
      (worker.executor.step event).map fun executor => { worker with executor := executor }
  | .look =>
      if worker.loop = .working then
        some { worker with loop := if worker.executor.keyBad then .paused else .working }
      else none
  | .wake mtime fresh =>
      if worker.loop = .paused then
        if mtime = worker.keyMtime then some { worker with loop := .working }
        else
          let worker := { worker with keyMtime := mtime }
          match fresh with
          | some key => (worker.executor.step (.installKey key)).map fun executor =>
              { worker with executor := executor, loop := .installing }
          | none => some { worker with loop := .working }
      else none
  | .installed =>
      if worker.loop = .installing then
        (worker.executor.step .clearKeyBad).map fun executor =>
          { worker with executor := executor, loop := .working }
      else none

end Worker

/-- The flag is about the installed key, unless the key is being replaced. -/
def Executor.Attributed (executor : Executor) : Prop :=
  executor.updates = 0 → executor.keyBad = true → executor.apiKey ∈ executor.rejected

/-- A rejection the flag may be raised for. -/
def Call.concerns (call : Call) (executor : Executor) (act : Act) : Bool :=
  match call.phase, act with
  | .adopted key response, .conclude =>
      !response.rejects || executor.apiKey = key || executor.apiKey ∈ executor.rejected ||
        executor.updates ≠ 0
  | _, _ => true

/-- If the step raises the flag, it is for the installed key, or the key is being replaced. -/
def Executor.concerns (executor : Executor) : ExecutorEvent → Bool
  | .call id _ act => (executor.calls id).all fun call => call.concerns executor act
  | _ => true

def Worker.concerns (worker : Worker) : WorkerEvent → Bool
  | .executor event => worker.executor.concerns event
  | _ => true

/-- The key and the answer of a request that Riot has answered. -/
def Phase.heard : Phase → Option (String × Response)
  | .answered key response => some (key, response)
  | .adoptedApp key response => some (key, response)
  | .adopted key response => some (key, response)
  | _ => none

/-- What a step of a call does to the flag and the record of rejected keys. -/
inductive Tells (executor : Executor) (call : Call) (act : Act) (next : Executor)
    (changed : Phase) : Prop where
  | nothing (concerns : call.concerns executor act = true) (flag : next.keyBad = executor.keyBad)
      (record : next.rejected = executor.rejected)
      (heard : ∀ answer, changed.heard = some answer → call.phase.heard = some answer)
  | answer (concerns : call.concerns executor act = true) (key : String) (response : Response)
      (flag : next.keyBad = executor.keyBad)
      (record : next.rejected =
        if response.rejects then executor.rejected ++ [key] else executor.rejected)
      (heard : changed.heard = some (key, response))
  | rejection (key : String) (response : Response) (phase : call.phase = .adopted key response)
      (concludes : act = .conclude) (rejects : response.rejects = true)
      (flag : next.keyBad = true) (record : next.rejected = executor.rejected)
      (heard : changed.heard = none)

/-- A step of a call: the key stays, and the call is in another phase. -/
structure Advanced (executor : Executor) (id : Nat) (call : Call) (act : Act) (next : Executor)
    (changed : Call) : Prop where
  calls : next.calls = Function.update executor.calls id (some changed)
  key : next.apiKey = executor.apiKey
  updates : next.updates = executor.updates
  tells : Tells executor call act next changed.phase

section Steps

variable {executor next : Executor} {id now : Nat} {call changed : Call} {act : Act}

/-- Nothing is told by a phase without an answer. -/
theorem Advanced.quiet (concerns : call.concerns executor act = true)
    (calls : next.calls = Function.update executor.calls id (some changed))
    (key : next.apiKey = executor.apiKey) (updates : next.updates = executor.updates)
    (flag : next.keyBad = executor.keyBad) (record : next.rejected = executor.rejected)
    (heard : changed.phase.heard = none) : Advanced executor id call act next changed :=
  ⟨calls, key, updates, .nothing concerns flag record fun answer here => by
    rw [heard] at here
    cases here⟩

theorem branch_advanced {key : String} {response : Response}
    (phase : call.phase = .adopted key response) :
    ∃ changed, Advanced executor id call .conclude (executor.branch id now call response)
      changed := by
  have other : response.rejects = false → call.concerns executor .conclude = true := by
    intro accepted
    simp [Call.concerns, phase, accepted]
  unfold Executor.branch
  dsimp only
  split
  · next success =>
      have accepted : response.rejects = false := by
        simp only [Response.rejects, Bool.or_eq_false_iff, decide_eq_false_iff_not]
        omega
      split
      · exact ⟨_, .quiet (other accepted) rfl rfl rfl rfl rfl rfl⟩
      · exact ⟨_, .quiet (other accepted) rfl rfl rfl rfl rfl rfl⟩
  · split
    · next missing =>
        have accepted : response.rejects = false := by simp [Response.rejects, missing]
        exact ⟨_, .quiet (other accepted) rfl rfl rfl rfl rfl rfl⟩
    · split
      · next limited =>
          have accepted : response.rejects = false := by simp [Response.rejects, limited]
          refine ⟨{ call with attempts := call.attempts - 1 }.again,
            .quiet (other accepted) ?_ ?_ ?_ ?_ ?_ rfl⟩
          all_goals
            unfold Executor.cool
            dsimp only
            split
            · rfl
            · rfl
      · split
        · next rejects =>
            exact ⟨_, rfl, rfl, rfl, .rejection key response phase rfl rejects rfl rfl rfl⟩
        · next accepted =>
            have concerns := other (Bool.eq_false_iff.mpr accepted)
            split
            · exact ⟨_, .quiet concerns rfl rfl rfl rfl rfl rfl⟩
            · exact ⟨_, .quiet concerns rfl rfl rfl rfl rfl rfl⟩

theorem advance_advanced (done : executor.advance id now call act = some next) :
    ∃ changed, Advanced executor id call act next changed := by
  unfold Executor.advance at done
  split at done
  · next loop gapMs phase =>
      have concerns : call.concerns executor (.acquire gapMs) = true := by
        simp only [Call.concerns, phase]
      split at done
      · unfold Executor.acquireMethod at done
        split at done
        · cases done
        · cases done
          exact ⟨_, .quiet concerns rfl rfl rfl rfl rfl rfl⟩
        · cases done
          exact ⟨_, .quiet concerns rfl rfl rfl rfl rfl rfl⟩
      · cases done
  · next slot loop gapMs phase =>
      have concerns : call.concerns executor (.acquire gapMs) = true := by
        simp only [Call.concerns, phase]
      split at done
      · unfold Executor.acquireApp at done
        split at done
        · cases done
        · cases done
          exact ⟨_, .quiet concerns rfl rfl rfl rfl rfl rfl⟩
        · cases done
          exact ⟨_, .quiet concerns rfl rfl rfl rfl rfl rfl⟩
      · cases done
  · next slot phase =>
      cases done
      exact ⟨_, .quiet (by simp only [Call.concerns, phase]) rfl rfl rfl rfl rfl rfl⟩
  · next key response phase =>
      cases done
      have concerns : call.concerns executor (.answer response) = true := by
        simp only [Call.concerns, phase]
      exact ⟨_, rfl, rfl, rfl, .answer concerns key response rfl rfl rfl⟩
  · next key error phase =>
      cases done
      exact ⟨_, .quiet (by simp only [Call.concerns, phase]) rfl rfl rfl rfl rfl rfl⟩
  · next key response phase =>
      cases done
      refine ⟨_, rfl, rfl, rfl, .nothing (by simp only [Call.concerns, phase]) rfl rfl ?_⟩
      intro answer here
      rw [phase]
      exact here
  · next key response phase =>
      cases done
      refine ⟨_, rfl, rfl, rfl, .nothing (by simp only [Call.concerns, phase]) rfl rfl ?_⟩
      intro answer here
      rw [phase]
      exact here
  · next key response phase =>
      cases done
      exact branch_advanced phase
  · next wake error phase =>
      have concerns : call.concerns executor .wake = true := by simp only [Call.concerns, phase]
      split at done
      · cases done
        unfold Executor.retry
        split
        · exact ⟨_, .quiet concerns rfl rfl rfl rfl rfl rfl⟩
        · exact ⟨_, .quiet concerns rfl rfl rfl rfl rfl rfl⟩
      · cases done
  · cases done

end Steps

/-- The keys of the rejected requests are on record. -/
def Heard (executor : Executor) : Prop :=
  ∀ id call key response, executor.calls id = some call →
    call.phase.heard = some (key, response) → response.rejects = true → key ∈ executor.rejected

section Runs

variable {executor next : Executor} {id now : Nat} {call changed : Call} {act : Act}

theorem Heard.advanced (heard : Heard executor) (there : executor.calls id = some call)
    (advanced : Advanced executor id call act next changed) : Heard next := by
  have kept : executor.rejected ⊆ next.rejected := by
    cases advanced.tells with
    | nothing concerns flag record => rw [record]; exact fun _ inside => inside
    | answer concerns key response flag record =>
        rw [record]
        split
        · exact List.subset_append_left _ _
        · exact fun _ inside => inside
    | rejection key response phase concludes rejects flag record =>
        rw [record]
        exact fun _ inside => inside
  intro other rival key response here answer rejects
  rw [advanced.calls, Function.update_apply] at here
  split at here
  · cases here
    cases advanced.tells with
    | nothing concerns flag record heard' =>
        exact kept (heard id call key response there (heard' _ answer) rejects)
    | answer concerns told answered flag record heard' =>
        rw [heard'] at answer
        cases answer
        rw [record, if_pos rejects]
        exact List.mem_append_right _ List.mem_cons_self
    | rejection told answered phase concludes rejects flag record heard' =>
        rw [heard'] at answer
        cases answer
  · exact kept (heard other rival key response here answer rejects)

/-- The flag stays attributed exactly when the step concerns the installed key. -/
theorem Executor.Attributed.advanced_iff (attributed : executor.Attributed)
    (heard : Heard executor) (there : executor.calls id = some call)
    (advanced : Advanced executor id call act next changed) :
    next.Attributed ↔ call.concerns executor act = true := by
  unfold Executor.Attributed
  rw [advanced.updates, advanced.key]
  cases advanced.tells with
  | nothing concerns flag record =>
      rw [flag, record]
      exact iff_of_true attributed concerns
  | answer concerns key response flag record =>
      rw [flag, record]
      refine iff_of_true (fun none bad => ?_) concerns
      split
      · exact List.mem_append_left _ (attributed none bad)
      · exact attributed none bad
  | rejection key response phase concludes rejects flag record =>
      have known : key ∈ executor.rejected :=
        heard id call key response there (by rw [phase]; rfl) rejects
      rw [flag, record, concludes]
      simp only [Call.concerns, phase, rejects, Bool.not_true, Bool.false_or, Bool.or_eq_true,
        decide_eq_true_eq]
      constructor
      · intro about
        by_cases none : executor.updates = 0
        · exact .inl (.inr (about none trivial))
        · exact .inr none
      · rintro ((same | rejected) | replaced) none -
        · rw [same]
          exact known
        · exact rejected
        · exact absurd none replaced

/-- A step of the executor keeps the rejected keys on record, and keeps the flag attributed exactly
if a flag that it raises is for the installed key. -/
theorem Executor.Attributed.step_iff (attributed : executor.Attributed) (heard : Heard executor)
    {event : ExecutorEvent} (done : executor.step event = some next) :
    Heard next ∧ (next.Attributed ↔ executor.concerns event = true) := by
  cases event with
  | execute id job =>
      rw [Executor.step] at done
      split at done
      · cases done
        refine ⟨fun other call key response there answer rejects => ?_,
          iff_of_true attributed rfl⟩
        rw [Executor.put_calls, Function.update_apply] at there
        split at there
        · cases there
          cases answer
        · exact heard other call key response there answer rejects
      · cases done
  | call id now act =>
      rw [Executor.step] at done
      split at done
      · next call there =>
          split at done
          · obtain ⟨changed, advanced⟩ := advance_advanced done
            have attributed' : ({ executor with clock := now } : Executor).Attributed := attributed
            have heard' : Heard { executor with clock := now } := heard
            rw [Executor.concerns, there, Option.all_some]
            exact ⟨heard'.advanced there advanced, attributed'.advanced_iff heard' there advanced⟩
          · cases done
      · cases done
  | installKey key =>
      cases done
      exact ⟨heard, iff_of_true (fun none => absurd none (Nat.succ_ne_zero _)) rfl⟩
  | clearKeyBad =>
      rw [Executor.step] at done
      split at done
      · cases done
        exact ⟨heard, iff_of_true (fun _ bad => by cases bad) rfl⟩
      · cases done

end Runs

/-- A step of the node. -/
def WorkerStep (worker : Worker) (event : WorkerEvent) (next : Worker) : Prop :=
  worker.step event = some next

/-- A step that raises the flag for the installed key only. -/
def ConcerningStep (worker : Worker) (event : WorkerEvent) (next : Worker) : Prop :=
  WorkerStep worker event next ∧ worker.concerns event

/-- A step of the node does the same. -/
theorem Worker.step_iff {worker next : Worker} {event : WorkerEvent}
    (attributed : worker.executor.Attributed) (heard : Heard worker.executor)
    (step : WorkerStep worker event next) :
    Heard next.executor ∧ (next.executor.Attributed ↔ worker.concerns event = true) := by
  have of_step : ∀ {event executor}, worker.executor.step event = some executor →
      Heard executor ∧ (executor.Attributed ↔ worker.executor.concerns event = true) :=
    fun done => attributed.step_iff heard done
  cases event with
  | executor event =>
      obtain ⟨executor, done, rfl⟩ := Option.map_eq_some_iff.mp step
      exact of_step done
  | look =>
      rw [WorkerStep, Worker.step] at step
      split at step
      · cases step
        exact ⟨heard, iff_of_true attributed rfl⟩
      · cases step
  | wake mtime fresh =>
      rw [WorkerStep, Worker.step] at step
      split at step
      · split at step
        · cases step
          exact ⟨heard, iff_of_true attributed rfl⟩
        · cases fresh with
          | some key =>
              obtain ⟨executor, done, rfl⟩ := Option.map_eq_some_iff.mp step
              exact of_step done
          | none =>
              cases step
              exact ⟨heard, iff_of_true attributed rfl⟩
      · cases step
  | installed =>
      rw [WorkerStep, Worker.step] at step
      split at step
      · obtain ⟨executor, done, rfl⟩ := Option.map_eq_some_iff.mp step
        exact of_step done
      · cases step

/-- **The flag.** While every rejection concerns the installed key, a raised flag is about a key
that Riot has rejected, and the next step breaks this exactly when it does not concern it. -/
theorem key_bad_attributed {key : String} {keyMtime : Option Nat} {events : List WorkerEvent}
    {worker : Worker} (run : Run ConcerningStep (.new key keyMtime) events worker) :
    worker.executor.Attributed ∧
      ∀ event next, WorkerStep worker event next →
        (next.executor.Attributed ↔ worker.concerns event = true) := by
  have held : Heard worker.executor ∧ worker.executor.Attributed := by
    refine run.invariant (fun worker => Heard worker.executor ∧ worker.executor.Attributed)
      (fun source event target held step => ?_) ⟨?_, ?_⟩
    · have after := Worker.step_iff held.2 held.1 step.1
      exact ⟨after.1, after.2.mpr step.2⟩
    · intro _ _ _ _ there
      cases there
    · intro _ bad
      cases bad
  exact ⟨held.2, fun event next step => (Worker.step_iff held.2 held.1 step).2⟩

/-! ## The pause -/

/-- Nobody installs a key, and the config file has this time. -/
def WorkerEvent.keepsConfig (mtime : Option Nat) : WorkerEvent → Bool
  | .executor (.installKey _) => false
  | .executor .clearKeyBad => false
  | .executor _ => true
  | .look => true
  | .wake here _ => here = mtime
  | .installed => true

/-- A loop that has nothing to install, with the flag raised. -/
structure Stuck (key : String) (mtime : Option Nat) (worker : Worker) : Prop where
  flag : worker.executor.keyBad = true
  key : worker.executor.apiKey = key
  mtime : worker.keyMtime = mtime
  loop : worker.loop ≠ .installing

namespace Stuck

variable {key : String} {mtime : Option Nat} {worker next : Worker} {event : WorkerEvent}

theorem step (stuck : Stuck key mtime worker) (step : WorkerStep worker event next)
    (keeps : event.keepsConfig mtime) : Stuck key mtime next := by
  cases event with
  | executor event =>
      obtain ⟨executor, done, rfl⟩ := Option.map_eq_some_iff.mp step
      cases event with
      | execute id job =>
          rw [Executor.step] at done
          split at done
          · cases done
            exact ⟨stuck.flag, stuck.key, stuck.mtime, stuck.loop⟩
          · cases done
      | call id now act =>
          rw [Executor.step] at done
          split at done
          · split at done
            · obtain ⟨changed, advanced⟩ := advance_advanced done
              refine ⟨?_, advanced.key.trans stuck.key, stuck.mtime, stuck.loop⟩
              cases advanced.tells with
              | nothing concerns flag => exact flag.trans stuck.flag
              | answer concerns key response flag => exact flag.trans stuck.flag
              | rejection key response phase concludes rejects flag => exact flag
            · cases done
          · cases done
      | installKey key => cases keeps
      | clearKeyBad => cases keeps
  | look =>
      rw [WorkerStep, Worker.step] at step
      split at step
      · cases step
        refine ⟨stuck.flag, stuck.key, stuck.mtime, ?_⟩
        rw [stuck.flag]
        exact WorkLoop.noConfusion
      · cases step
  | wake here fresh =>
      rw [WorkerStep, Worker.step] at step
      split at step
      · split at step
        · cases step
          exact ⟨stuck.flag, stuck.key, stuck.mtime, WorkLoop.noConfusion⟩
        · next changed => exact absurd ((of_decide_eq_true keeps).trans stuck.mtime.symm) changed
      · cases step
  | installed =>
      rw [WorkerStep, Worker.step, if_neg stuck.loop] at step
      cases step

/-- The loop works no more until the config file changes. -/
theorem look (stuck : Stuck key mtime worker) (step : WorkerStep worker .look next) :
    next.loop = .paused := by
  rw [WorkerStep, Worker.step] at step
  split at step
  · cases step
    rw [stuck.flag]
    rfl
  · cases step

end Stuck

def keyJob (id : Nat) : Job := ⟨id, "eu", "match", "", 150000⟩

def forbidden : Response := ⟨403, "403 Forbidden", none, none, none, false, .ok ""⟩

/-- A call is rejected with the first key. -/
def firstRejected : List WorkerEvent :=
  [.executor (.execute 0 (keyJob 0)), .executor (.execute 1 (keyJob 1)),
    .executor (.call 0 0 (.acquire 0)), .executor (.call 0 0 (.acquire 0)),
    .executor (.call 0 0 .send),
    .executor (.call 1 0 (.acquire 0)), .executor (.call 1 0 (.acquire 0)),
    .executor (.call 1 0 .send),
    .executor (.call 0 0 (.answer forbidden)), .executor (.call 0 0 .adopt),
    .executor (.call 0 0 .adopt), .executor (.call 0 0 .conclude), .look]

/-- The second key is installed, and the other call with the first key is rejected. -/
def secondRejected : List WorkerEvent :=
  firstRejected ++ [.wake (some 1) (some "second"), .installed,
    .executor (.call 1 0 (.answer forbidden)), .executor (.call 1 0 .adopt),
    .executor (.call 1 0 .adopt), .executor (.call 1 0 .conclude), .look]

/-- The first rejection concerns the installed key. -/
theorem key_bad_attributed_once : ∃ worker,
    Run ConcerningStep (.new "first" none) firstRejected worker ∧ worker.loop = .paused ∧
      worker.executor.Attributed := by
  have done : (follow Worker.step Worker.concerns (.new "first" none) firstRejected).any
      fun worker => worker.loop = .paused := by
    decide
  obtain ⟨worker, run, paused⟩ := run_of_follow done
  exact ⟨worker, run, of_decide_eq_true paused, (key_bad_attributed run).1⟩

/-- The loop is paused on a key that was never rejected, until the config file changes again. -/
theorem key_bad_misattributed : ∃ worker,
    Run WorkerStep (.new "first" none) secondRejected worker ∧ worker.loop = .paused ∧
    worker.executor.apiKey = "second" ∧ ¬ worker.executor.Attributed ∧
    ∀ events next, Run (fun worker event next => WorkerStep worker event next ∧
        event.keepsConfig (some 1)) worker events next →
      next.executor.keyBad = true ∧ next.executor.apiKey = "second" ∧
        ∀ after, WorkerStep next .look after → after.loop = .paused := by
  have done : (follow Worker.step (fun _ _ => true) (.new "first" none) secondRejected).any
      fun worker => worker.loop = .paused && worker.executor.apiKey = "second" &&
        worker.executor.updates = 0 && worker.executor.keyBad &&
        worker.executor.rejected = ["first", "first"] && worker.keyMtime = some 1 := by
    decide
  obtain ⟨worker, run, found⟩ := run_of_follow done
  simp only [Bool.and_eq_true, decide_eq_true_eq] at found
  obtain ⟨⟨⟨⟨⟨paused, key⟩, none⟩, flag⟩, rejected⟩, mtime⟩ := found
  refine ⟨worker, run.mono fun _ _ _ step => step.1, paused, key, ?_, ?_⟩
  · intro attributed
    have there := attributed none flag
    rw [key, rejected] at there
    revert there
    decide
  · intro events next later
    have start : Stuck "second" (some 1) worker :=
      ⟨flag, key, mtime, by rw [paused]; exact WorkLoop.noConfusion⟩
    have stuck := later.invariant (Stuck "second" (some 1))
      (fun _ _ _ held step => held.step step.1 step.2) start
    exact ⟨stuck.flag, stuck.key, fun after step => stuck.look step⟩

end LolCrawler.Node
