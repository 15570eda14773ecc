import Mathlib.Order.Defs.Unbundled
import LolCrawler.Foundation.Errors

/-! # Programs that others come between

A script asks its surroundings one question at a time. Between two questions other
programs may change the state, so a script is verified against what they may do
(`Safe`): each of its own steps keeps a promise to them, and what it relies on
survives theirs.
-/

namespace Foundation

/-- A program that asks one question at a time. A question without an answer has failed. -/
inductive Script (Ask : Type) (Answer : Ask → Type) (α : Type) where
  | done (value : α)
  | fail (err : Error)
  | ask (question : Ask) (next : Option (Answer question) → Script Ask Answer α)

namespace Script

variable {Ask : Type} {Answer : Ask → Type} {α β : Type}

protected def bind : Script Ask Answer α → (α → Script Ask Answer β) → Script Ask Answer β
  | .done value, second => second value
  | .fail err, _ => .fail err
  | .ask question next, second => .ask question fun answer => (next answer).bind second

instance : Monad (Script Ask Answer) where
  pure := .done
  bind := Script.bind

/-- One question. -/
def perform (question : Ask) : Script Ask Answer (Answer question) :=
  .ask question fun
    | some answer => .done answer
    | none => .fail ["I/O error"]

/-- A computation that asks nothing. -/
def lift : Except Error α → Script Ask Answer α
  | .ok value => .done value
  | .error err => .fail err

/-- Attach a context to an error. -/
def context (what : String) : Script Ask Answer α → Script Ask Answer α
  | .done value => .done value
  | .fail err => .fail (what :: err)
  | .ask question next => .ask question fun answer => (next answer).context what

/-- The result, or the error if the script failed. -/
def attempt : Script Ask Answer α → Script Ask Answer (Except Error α)
  | .done value => .done (.ok value)
  | .fail err => .done (.error err)
  | .ask question next => .ask question fun answer => (next answer).attempt

/-! ## Steps -/

variable {State : Type}

/-- What a question may be answered, and what it makes of the state. -/
abbrev Surroundings (Ask : Type) (Answer : Ask → Type) (State : Type) : Type :=
  (question : Ask) → State → Option (Answer question) → State → Prop

/-- One question of the script. -/
def Moves (exec : Surroundings Ask Answer State) :
    Script Ask Answer α → State → Script Ask Answer α → State → Prop
  | .ask question next, state, script, after =>
      ∃ answer, exec question state answer after ∧ script = next answer
  | _, _, _, _ => False

/-! ## What a script keeps while others move -/

/-- While the others do only what `rely` allows, the script does only what `promise` allows,
and ends or fails as stated. -/
def Safe (exec : Surroundings Ask Answer State) (rely promise : State → State → Prop)
    (ends : α → State → Prop) (fails : State → Prop) : Script Ask Answer α → State → Prop
  | .done value, state => ∀ now, rely state now → ends value now
  | .fail _, state => ∀ now, rely state now → fails now
  | .ask question next, state => ∀ now, rely state now → ∀ answer after,
      exec question now answer after →
        promise now after ∧ Safe exec rely promise ends fails (next answer) after

namespace Safe

variable {exec : Surroundings Ask Answer State} {rely promise : State → State → Prop}
  {ends : α → State → Prop} {fails : State → Prop} {state now after : State}

/-- A value is safe. -/
theorem pure {value : α} (holds : ∀ now, rely state now → ends value now) :
    Safe exec rely promise ends fails (Pure.pure value) state := holds

/-- A failure is safe. -/
theorem fail {err : Error} (holds : ∀ now, rely state now → fails now) :
    Safe exec rely promise ends fails (.fail err) state := holds

/-- A question is safe if it keeps the promise and every answer is safe from then on. -/
theorem perform {question : Ask} {ends : Answer question → State → Prop}
    (holds : ∀ now, rely state now → ∀ answer after, exec question now answer after →
      promise now after ∧ ∀ later, rely after later →
        answer.elim (fails later) fun value => ends value later) :
    Safe exec rely promise ends fails (Script.perform question) state := by
  intro now moved answer after asked
  obtain ⟨kept, rest⟩ := holds now moved answer after asked
  refine ⟨kept, ?_⟩
  cases answer with
  | none => exact rest
  | some value => exact rest

/-- A lifted result is safe. -/
theorem lift {result : Except Error α} (ok : ∀ value, result = .ok value → ∀ now, rely state now →
      ends value now) (error : ∀ now, rely state now → fails now) :
    Safe exec rely promise ends fails (Script.lift result) state := by
  cases result with
  | ok value => exact ok value rfl
  | error err => exact error

/-- A context is safe. -/
theorem context {what : String} {script : Script Ask Answer α}
    (safe : Safe exec rely promise ends fails script state) :
    Safe exec rely promise ends fails (script.context what) state := by
  induction script generalizing state with
  | done value => exact safe
  | fail err => exact safe
  | ask question next ih =>
      intro now moved answer after asked
      obtain ⟨kept, rest⟩ := safe now moved answer after asked
      exact ⟨kept, ih answer rest⟩

/-- An attempt is safe if its script is. -/
theorem attempt {script : Script Ask Answer α} {ends : Except Error α → State → Prop}
    (safe : Safe exec rely promise (fun value => ends (.ok value))
      (fun now => ∀ err, ends (.error err) now) script state) :
    Safe exec rely promise ends fails script.attempt state := by
  induction script generalizing state with
  | done value => exact safe
  | fail err => exact fun now moved => safe now moved err
  | ask question next ih =>
      intro now moved answer after asked
      obtain ⟨kept, rest⟩ := safe now moved answer after asked
      exact ⟨kept, ih answer rest⟩

/-- What is promised of the end may be weakened. -/
theorem weaken {ends' : α → State → Prop} {fails' : State → Prop} {script : Script Ask Answer α}
    (safe : Safe exec rely promise ends fails script state)
    (ended : ∀ value now, ends value now → ends' value now)
    (failed : ∀ now, fails now → fails' now) :
    Safe exec rely promise ends' fails' script state := by
  induction script generalizing state with
  | done value => exact fun now moved => ended value now (safe now moved)
  | fail err => exact fun now moved => failed now (safe now moved)
  | ask question next ih =>
      intro now moved answer after asked
      obtain ⟨kept, rest⟩ := safe now moved answer after asked
      exact ⟨kept, ih answer rest⟩

/-- What neither the others nor the script can end holds to the end. -/
theorem frame {claim : State → Prop} {script : Script Ask Answer α}
    (safe : Safe exec rely promise ends fails script state)
    (theirs : ∀ before after, rely before after → claim before → claim after)
    (own : ∀ before after, promise before after → claim before → claim after)
    (holds : claim state) :
    Safe exec rely promise (fun value now => ends value now ∧ claim now) fails script state := by
  induction script generalizing state with
  | done value => exact fun now moved => ⟨safe now moved, theirs _ _ moved holds⟩
  | fail err => exact safe
  | ask question next ih =>
      intro now moved answer after asked
      obtain ⟨kept, rest⟩ := safe now moved answer after asked
      exact ⟨kept, ih answer rest (own _ _ kept (theirs _ _ moved holds))⟩

/-- A script stays safe whatever the others do. -/
theorem others [IsTrans State rely] {script : Script Ask Answer α}
    (safe : Safe exec rely promise ends fails script state) (moved : rely state now) :
    Safe exec rely promise ends fails script now := by
  have onwards : ∀ later, rely now later → rely state later :=
    fun later more => IsTrans.trans _ _ _ moved more
  cases script with
  | done value => exact fun later more => safe later (onwards later more)
  | fail err => exact fun later more => safe later (onwards later more)
  | ask question next => exact fun later more => safe later (onwards later more)

variable [Std.Refl rely]

/-- A script is safe if its first part is, and its second from every end of the first. -/
theorem bind {script : Script Ask Answer α} {second : α → Script Ask Answer β}
    {ends' : β → State → Prop} (safe : Safe exec rely promise ends fails script state)
    (rest : ∀ value now, ends value now → Safe exec rely promise ends' fails (second value) now) :
    Safe exec rely promise ends' fails (script >>= second) state := by
  induction script generalizing state with
  | done value => exact rest value state (safe state (Std.Refl.refl state))
  | fail err => exact safe
  | ask question next ih =>
      intro now moved answer after asked
      obtain ⟨kept, later⟩ := safe now moved answer after asked
      exact ⟨kept, ih answer later⟩

/-- Whatever a safe script does keeps the promise, and leaves it safe. -/
theorem moves {script next : Script Ask Answer α}
    (safe : Safe exec rely promise ends fails script state)
    (moved : script.Moves exec state next after) :
    promise state after ∧ Safe exec rely promise ends fails next after := by
  cases script with
  | done value => exact moved.elim
  | fail err => exact moved.elim
  | ask question rest =>
      obtain ⟨answer, asked, rfl⟩ := moved
      exact safe state (Std.Refl.refl state) answer after asked

/-- A script that is done has met its end. -/
theorem ended {value : α} (safe : Safe exec rely promise ends fails (.done value) state) :
    ends value state := safe state (Std.Refl.refl state)

/-- A script that failed has met its failure. -/
theorem failed {err : Error}
    (safe : Safe exec rely promise ends fails (.fail err : Script Ask Answer α) state) :
    fails state := safe state (Std.Refl.refl state)

end Safe

end Script

end Foundation
