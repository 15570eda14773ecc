import Mathlib.Algebra.Order.Monoid.Defs

/-! # What a run takes

A state has something left, in some ordered monoid. `Takes` says that every
successful run of an action takes a cost out of it that is right for the value it
returns; the costs of a sequence add up.
-/

namespace Foundation

section Takes

variable {State Cost Failure α β : Type} [AddCommMonoid Cost] [PartialOrder Cost]
  {left : State → Cost}

/-- Whenever the action succeeds, a cost that is right for its value is gone. -/
def Takes (left : State → Cost) (action : StateT State (Except Failure) α)
    (post : α → Cost → Prop) : Prop :=
  ∀ state value next, action state = .ok (value, next) →
    ∃ cost, post value cost ∧ cost + left next ≤ left state

namespace Takes

theorem pure {value : α} {post : α → Cost → Prop} (free : post value 0) :
    Takes left (Pure.pure value : StateT State (Except Failure) α) post := by
  intro state result next run
  cases run
  exact ⟨0, free, (zero_add _).le⟩

/-- The costs of a sequence add up. -/
theorem bind [IsOrderedAddMonoid Cost] {first : StateT State (Except Failure) α}
    {second : α → StateT State (Except Failure) β} {post : α → Cost → Prop}
    {last : β → Cost → Prop} (head : Takes left first post)
    (tail : ∀ value cost, post value cost →
      Takes left (second value) fun result rest => last result (cost + rest)) :
    Takes left (first >>= second) last := by
  intro state result next run
  cases ran : first state with
  | error failure =>
      change (first state).bind _ = _ at run
      rw [ran] at run
      cases run
  | ok done =>
      obtain ⟨value, mid⟩ := done
      change (first state).bind _ = _ at run
      rw [ran] at run
      obtain ⟨cost, right, paid⟩ := head state value mid ran
      obtain ⟨rest, shown, paidRest⟩ := tail value cost right mid result next run
      refine ⟨cost + rest, shown, ?_⟩
      calc cost + rest + left next = cost + (rest + left next) := add_assoc ..
        _ ≤ cost + left mid := add_le_add_right paidRest cost
        _ ≤ left state := paid

/-- A sequence whose first part has a cost of its own. -/
theorem step [IsOrderedAddMonoid Cost] {first : StateT State (Except Failure) α}
    {second : α → StateT State (Except Failure) β} {price : α → Cost} {last : β → Cost → Prop}
    (head : Takes left first fun value paid => paid = price value)
    (tail : ∀ value, Takes left (second value) fun result rest =>
      last result (price value + rest)) :
    Takes left (first >>= second) last :=
  head.bind fun value _ paid => paid ▸ tail value

/-- A step that reads no state takes nothing. -/
theorem lift {result : Except Failure α} {post : α → Cost → Prop}
    (free : ∀ value, result = .ok value → post value 0) :
    Takes left (liftM result : StateT State (Except Failure) α) post := by
  intro state value next run
  cases result with
  | error failure => cases run
  | ok inner =>
      cases run
      exact ⟨0, free _ rfl, (zero_add _).le⟩

/-- A step that reads no state, before the rest. -/
theorem lift_bind {result : Except Failure α} {next : α → StateT State (Except Failure) β}
    {post : β → Cost → Prop}
    (rest : ∀ value, result = .ok value → Takes left (next value) post) :
    Takes left (liftM result >>= next) post := by
  intro state value last run
  cases result with
  | error failure => cases run
  | ok inner => exact rest inner rfl state value last run

/-- A cost that is also right in another sense. -/
theorem weaken {action : StateT State (Except Failure) α} {post other : α → Cost → Prop}
    (takes : Takes left action post) (implied : ∀ value cost, post value cost → other value cost) :
    Takes left action other := by
  intro state value next run
  obtain ⟨cost, right, paid⟩ := takes state value next run
  exact ⟨cost, implied value cost right, paid⟩

end Takes

end Takes

end Foundation
