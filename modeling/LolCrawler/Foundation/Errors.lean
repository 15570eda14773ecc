/-! # Errors with contexts

An error is the chain of messages attached to it on the way out, outermost
first.
-/

namespace Foundation

/-- The messages of an error, outermost context first. -/
abbrev Error := List String

/-- What `Display` shows of an error: its outermost message. -/
def shown (err : Error) : String := err.headD ""

/-- The bytes of a buffer. -/
abbrev Bytes := List UInt8

variable {α β : Type}

/-- Fail with a message. -/
def bail (message : String) : Except Error α := .error [message]

/-- Fail with a message unless the condition holds. -/
def ensure (condition : Bool) (message : String) : Except Error Unit :=
  if condition then .ok () else bail message

/-- Attach a context to an error. -/
def context (what : String) : Except Error α → Except Error α
  | .ok value => .ok value
  | .error messages => .error (what :: messages)

/-- `Option::context`. -/
def orBail (message : String) : Option α → Except Error α
  | some value => .ok value
  | none => bail message

@[simp] theorem ok_bind (value : α) (next : α → Except Error β) :
    (Except.ok value >>= next) = next value := rfl

@[simp] theorem ensure_true (message : String) : ensure true message = .ok () := rfl

/-- A condition that is ensured holds. -/
theorem ensure_eq_ok {condition : Bool} {message : String} :
    ensure condition message = .ok () ↔ condition = true := by
  cases condition <;> simp [ensure, bail]

/-- A value that is found is there. -/
theorem orBail_eq_ok {message : String} {result : Option α} {value : α} :
    orBail message result = .ok value ↔ result = some value := by
  cases result <;> simp [orBail, bail]

@[simp] theorem context_ok (what : String) (value : α) : context what (.ok value) = .ok value := rfl

/-- A result with a context that succeeds is the result. -/
theorem context_eq_ok {what : String} {result : Except Error α} {value : α} :
    context what result = .ok value ↔ result = .ok value := by
  cases result <;> simp [context]

/-- A sequence succeeds exactly when both parts do. -/
theorem bind_eq_ok {ε : Type} {first : Except ε α} {second : α → Except ε β} {value : β} :
    first.bind second = .ok value ↔ ∃ mid, first = .ok mid ∧ second mid = .ok value := by
  cases first <;> simp [Except.bind]

/-- A loop of successful calls collects their results. -/
theorem mapM_eq_ok {ε : Type} {action : α → Except ε β} {result : α → β} {list : List α}
    (each : ∀ item ∈ list, action item = .ok (result item)) :
    list.mapM action = .ok (list.map result) := by
  induction list with
  | nil => rfl
  | cons item list ih =>
      rw [List.mapM_cons, each item List.mem_cons_self,
        ih fun later inside => each later (List.mem_cons_of_mem _ inside)]
      rfl

/-- A loop whose rounds all succeed is a fold. -/
theorem foldlM_eq_ok {ε : Type} {round : β → α → Except ε β} {next : β → α → β} {list : List α}
    (each : ∀ value, ∀ item ∈ list, round value item = .ok (next value item)) (value : β) :
    list.foldlM round value = .ok (list.foldl next value) := by
  induction list generalizing value with
  | nil => rfl
  | cons item list ih =>
      rw [List.foldlM_cons, each value item List.mem_cons_self]
      exact ih (fun value later inside => each value later (List.mem_cons_of_mem _ inside)) _

end Foundation
