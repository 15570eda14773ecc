import LolCrawler.Foundation.Errors

/-! # Code that may panic

An `Outcome` is a value, an error that the code returns, or a panic: the
operations below panic where the language does. `Simulates` says that stateful
code never panics, and returns what a model of it without panics returns, up to
the shape of the value and the representation of the state.
-/

namespace Foundation

/-- How code fails. -/
inductive Fault where
  | panic
  | error (messages : Error)
deriving DecidableEq

/-- The results of code that may panic. -/
abbrev Outcome := Except Fault

variable {α β γ : Type}

/-- The result of code that does not panic. -/
def returns : Except Error α → Outcome α
  | .ok value => .ok value
  | .error messages => .error (.error messages)

instance : MonadLift (Except Error) Outcome := ⟨returns⟩

/-- Attach a context to an error that is returned. -/
def withContext (what : String) : Outcome α → Outcome α
  | .ok value => .ok value
  | .error .panic => .error .panic
  | .error (.error messages) => .error (.error (what :: messages))

/-- `list[i]`. -/
def index (list : List α) (i : Nat) : Outcome α :=
  match list[i]? with
  | some value => .ok value
  | none => .error .panic

/-- `list[i] = value`. -/
def store (list : List α) (i : Nat) (value : α) : Outcome (List α) :=
  if i < list.length then .ok (list.set i value) else .error .panic

/-- `&list[start..last]`. -/
def slice (list : List α) (start last : Nat) : Outcome (List α) :=
  if start ≤ last ∧ last ≤ list.length then .ok ((list.drop start).take (last - start))
  else .error .panic

/-- `a + b` in a type of `bound` values. -/
def plus (bound a b : Nat) : Outcome Nat := if a + b < bound then .ok (a + b) else .error .panic

/-- `value << count` on a `u64`. -/
def shl (value : UInt64) (count : Nat) : Outcome UInt64 :=
  if count < 64 then .ok (value <<< .ofNat count) else .error .panic

/-- An index inside does not panic. -/
theorem index_eq_ok {list : List α} {i : Nat} (inside : i < list.length) :
    index list i = .ok list[i] := by
  unfold index
  rw [List.getElem?_eq_getElem inside]

/-- A store inside does not panic. -/
theorem store_eq_ok {list : List α} {i : Nat} (inside : i < list.length) (value : α) :
    store list i value = .ok (list.set i value) :=
  if_pos inside

/-- A slice inside does not panic. -/
theorem slice_eq_ok {list : List α} {start last : Nat} (ordered : start ≤ last)
    (inside : last ≤ list.length) :
    slice list start last = .ok ((list.drop start).take (last - start)) :=
  if_pos ⟨ordered, inside⟩

/-- A sum that fits does not panic. -/
theorem plus_eq_ok {bound a b : Nat} (small : a + b < bound) : plus bound a b = .ok (a + b) :=
  if_pos small

/-- A shift by less than the width does not panic. -/
theorem shl_eq_ok {count : Nat} (small : count < 64) (value : UInt64) :
    shl value count = .ok (value <<< .ofNat count) :=
  if_pos small

@[simp] theorem returns_ok (value : α) : returns (.ok value) = .ok value := rfl

@[simp] theorem outcome_ok_bind (value : α) (next : α → Outcome β) :
    (Except.ok value >>= next) = next value := rfl

/-- Code that goes on from a returned value, where the model has that value. -/
theorem returns_bind {result : Except Error α} {checked : α → Outcome β}
    {model : α → Except Error β} (same : ∀ value, result = .ok value →
      checked value = returns (model value)) :
    (returns result >>= checked) = returns (result >>= model) := by
  cases result with
  | error messages => rfl
  | ok value => exact same value rfl

/-! ## Stateful code -/

section Simulates

variable {State Other : Type} {related : State → Other → Prop}

/-- The outcome is no panic, and is the result of the model. -/
inductive Agrees (related : State → Other → Prop) (same : α → β → Prop) :
    Outcome (α × State) → Except Error (β × Other) → Prop where
  | ok {value : α} {result : β} {state : State} {other : Other} (held : related state other)
      (shown : same value result) : Agrees related same (.ok (value, state)) (.ok (result, other))
  | error {messages : Error} :
      Agrees related same (.error (.error messages)) (.error messages)

/-- From related states, the code does not panic and agrees with the model. -/
def Simulates (related : State → Other → Prop) (checked : StateT State Outcome α)
    (model : StateT Other (Except Error) β) (same : α → β → Prop) : Prop :=
  ∀ state other, related state other → Agrees related same (checked state) (model other)

namespace Simulates

/-- A value simulates itself. -/
theorem pure {value : α} {result : β} {same : α → β → Prop} (shown : same value result) :
    Simulates related (Pure.pure value) (Pure.pure result) same :=
  fun _ _ held => .ok held shown

/-- Code in sequence simulates models in sequence. -/
theorem bind {δ : Type} {first : StateT State Outcome α} {model : StateT Other (Except Error) β}
    {same : α → β → Prop} {next : α → StateT State Outcome γ}
    {modelNext : β → StateT Other (Except Error) δ} {last : γ → δ → Prop}
    (left : Simulates related first model same)
    (right : ∀ value result, same value result →
      Simulates related (next value) (modelNext result) last) :
    Simulates related (first >>= next) (model >>= modelNext) last := by
  intro state other held
  change Agrees related last ((first state).bind _) ((model other).bind _)
  have agreed := left state other held
  generalize first state = run, model other = modelRun at agreed ⊢
  cases agreed with
  | ok held shown => exact right _ _ shown _ _ held
  | error => exact .error

/-- Code in sequence whose first part returns what the model returns. -/
theorem step {δ : Type} {first : StateT State Outcome α} {model : StateT Other (Except Error) α}
    {next : α → StateT State Outcome γ} {modelNext : α → StateT Other (Except Error) δ}
    {last : γ → δ → Prop} (left : Simulates related first model Eq)
    (right : ∀ value, Simulates related (next value) (modelNext value) last) :
    Simulates related (first >>= next) (model >>= modelNext) last :=
  left.bind fun value _ same => same ▸ right value

/-- Code in sequence whose first part is shaped by the model. -/
theorem shaped {δ : Type} {first : StateT State Outcome α}
    {model : StateT Other (Except Error) β} {shape : α → β} {next : α → StateT State Outcome γ}
    {modelNext : β → StateT Other (Except Error) δ} {last : γ → δ → Prop}
    (left : Simulates related first model fun value result => result = shape value)
    (right : ∀ value, Simulates related (next value) (modelNext (shape value)) last) :
    Simulates related (first >>= next) (model >>= modelNext) last :=
  left.bind fun value _ same => same ▸ right value

/-- A step that reads no state and does not panic. -/
theorem lift (result : Except Error α) :
    Simulates related (liftM result) (liftM result) Eq := by
  intro state other held
  cases result with
  | error messages => exact .error
  | ok value => exact .ok held rfl

/-- A check that both make fails in both or in neither. -/
theorem check (condition : Bool) (message : String) :
    Simulates related (liftM (ensure condition message)) (liftM (ensure condition message))
      fun _ _ => condition = true := by
  intro state other held
  cases condition with
  | false => exact .error
  | true => exact .ok held rfl

/-- A step that does not panic and has no counterpart in the model. -/
theorem lift_ok {result : Outcome α} {value : α} {next : α → StateT State Outcome β}
    {model : StateT Other (Except Error) γ} {same : β → γ → Prop} (success : result = .ok value)
    (right : Simulates related (next value) model same) :
    Simulates related (liftM result >>= next) model same := by
  subst success
  exact right

/-- The simulation goes on if both attach the same context. -/
theorem inContext (what : String) {checked : StateT State Outcome α}
    {model : StateT Other (Except Error) β} {same : α → β → Prop}
    (simulates : Simulates related checked model same) :
    Simulates related (fun state => withContext what (checked state))
      (fun other => context what (model other)) same := by
  intro state other held
  change Agrees related same (withContext what (checked state)) (context what (model other))
  have agreed := simulates state other held
  generalize checked state = run, model other = modelRun at agreed ⊢
  cases agreed with
  | ok held shown => exact .ok held shown
  | error => exact .error

/-- The model shapes what the code returns. -/
theorem map {checked : StateT State Outcome α} {model : StateT Other (Except Error) α}
    (simulates : Simulates related checked model Eq) (shape : α → β) :
    Simulates related checked (model >>= fun value => Pure.pure (shape value))
      fun value result => result = shape value := by
  intro state other held
  change Agrees related _ (checked state) ((model other).bind _)
  have agreed := simulates state other held
  generalize checked state = run, model other = modelRun at agreed ⊢
  cases agreed with
  | ok held shown => exact .ok held (congrArg shape shown.symm)
  | error => exact .error

end Simulates

end Simulates

end Foundation
