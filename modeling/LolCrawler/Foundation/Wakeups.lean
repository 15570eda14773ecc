import Mathlib.Logic.Function.Basic

/-! # Notifications that leave no permit

A waiter looks for what it needs, registers, and then waits to be notified. A notification wakes
the waiters registered by then and nobody else. Whoever brings what waiters may need owes a
notification and pays it in a later step. A need that comes up between the look and the
registration of its waiter is covered only while a notification is still owed
(`Covered`, `covered_notify_iff`).
-/

namespace Foundation

/-- Where a waiter stands. -/
inductive Stage where
  /-- It looks again before it waits. -/
  | busy
  /-- It has looked and found nothing, and is not registered. -/
  | checked
  | registered
  | woken
deriving DecidableEq

namespace Stage

/-- It waits, or is about to, without having been told. -/
def idle : Stage → Bool
  | .checked | .registered => true
  | .busy | .woken => false

/-- What a notification makes of it. -/
def notify : Stage → Stage
  | .registered => .woken
  | stage => stage

theorem idle_notify (stage : Stage) : stage.notify.idle = true ↔ stage = .checked := by
  cases stage <;> decide

end Stage

variable {Waiter : Type*} {needs later : Waiter → Prop} {stage next : Waiter → Stage}
  {owed extra : Nat}

/-- No registered waiter needs anything, unless a notification is still owed. -/
def Attended (needs : Waiter → Prop) (stage : Waiter → Stage) (owed : Nat) : Prop :=
  ∀ waiter, stage waiter = .registered → needs waiter → 0 < owed

/-- The same of those that are about to register. -/
def Covered (needs : Waiter → Prop) (stage : Waiter → Stage) (owed : Nat) : Prop :=
  ∀ waiter, (stage waiter).idle = true → needs waiter → 0 < owed

theorem Covered.attended (covered : Covered needs stage owed) : Attended needs stage owed := by
  intro waiter registered need
  refine covered waiter ?_ need
  rw [registered]
  rfl

/-- Each idle waiter has been idle without this need, or nobody idle gains one for free. -/
theorem Covered.change (covered : Covered needs stage owed)
    (gains : ∀ waiter, (next waiter).idle = true → later waiter →
      (stage waiter).idle = true ∧ needs waiter ∨ 0 < owed + extra) :
    Covered later next (owed + extra) := by
  intro waiter idle need
  rcases gains waiter idle need with ⟨before, needed⟩ | enough
  · exact Nat.lt_of_lt_of_le (covered waiter before needed) (Nat.le_add_right owed extra)
  · exact enough

/-- A notification may be paid when nobody is between the look and the registration with a need, or
another one is owed. -/
theorem covered_notify_iff :
    Covered needs (fun waiter => (stage waiter).notify) owed ↔
      0 < owed ∨ ∀ waiter, stage waiter = .checked → ¬ needs waiter := by
  constructor
  · intro covered
    refine or_iff_not_imp_left.mpr fun unowed waiter checked need => unowed ?_
    exact covered waiter ((stage waiter).idle_notify.mpr checked) need
  · intro either waiter idle need
    rcases either with enough | none
    · exact enough
    · exact (none waiter ((stage waiter).idle_notify.mp idle) need).elim

end Foundation
