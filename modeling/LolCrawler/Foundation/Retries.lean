import Mathlib

/-! # Retry policies

A policy looks at how an attempt has ended. It returns a result, or goes on with a new
count of the attempts it has used up. An ending that a policy is `Bounded` by uses up one
attempt unless it is free, and the policy never goes on with all of its attempts used up.
So it sees at most that many endings besides the free ones (`Policy.Bounded.length_le`).

Between the attempts there are sleeps, each twice as long as the one before up to a cap. What
a loop has slept tells how often it has slept (`slept_lt_iff`).
-/

namespace Foundation

variable {Ending Result : Type*}

/-- What becomes of the attempts used up so far when one more has ended. -/
abbrev Policy (Ending Result : Type*) := Nat → Ending → Except Result Nat

namespace Policy

/-- The result of these endings, or the attempts they have used up. -/
def settle (policy : Policy Ending Result) (endings : List Ending) : Except Result Nat :=
  endings.foldlM policy 0

@[simp] theorem settle_nil (policy : Policy Ending Result) : policy.settle [] = .ok 0 := rfl

/-- One more ending is judged by the budget that the earlier ones left. -/
theorem settle_concat {policy : Policy Ending Result} {endings : List Ending} {used : Nat}
    (goes : policy.settle endings = .ok used) (ending : Ending) :
    policy.settle (endings ++ [ending]) = policy used ending := by
  unfold settle at goes ⊢
  rw [List.foldlM_append, goes]
  exact bind_pure (policy used ending)

/-- A result comes from one of the endings. -/
theorem settle_error {policy : Policy Ending Result} {endings : List Ending} {result : Result}
    (settled : policy.settle endings = .error result) :
    ∃ used, ∃ ending ∈ endings, policy used ending = .error result := by
  induction endings using List.reverseRecOn with
  | nil => cases settled
  | append_singleton endings ending ih =>
      cases before : policy.settle endings with
      | ok used =>
          rw [settle_concat before] at settled
          exact ⟨used, ending, List.mem_append_right _ (List.mem_singleton_self _), settled⟩
      | error earlier =>
          have same : policy.settle endings = .error result := by
            unfold settle at settled before ⊢
            rw [List.foldlM_append, before] at settled
            rw [before]
            exact settled
          obtain ⟨used, own, inside, returned⟩ := ih same
          exact ⟨used, own, List.mem_append_left _ inside, returned⟩

/-- The policy goes on with fewer attempts used up than it has; only free endings use up none. -/
structure Bounded (policy : Policy Ending Result) (limit : Nat) (free : Ending → Bool) : Prop where
  spared : ∀ used ending, free ending = true → policy used ending = .ok used
  counted : ∀ used ending later, free ending = false → policy used ending = .ok later →
    later = used + 1 ∧ later < limit

namespace Bounded

variable {policy : Policy Ending Result} {limit : Nat} {free : Ending → Bool}

/-- What is used up are the endings that are not free. -/
theorem used_eq (bounded : Bounded policy limit free) (some : 0 < limit) {endings : List Ending}
    {used : Nat} (goes : policy.settle endings = .ok used) :
    endings.length = used + endings.countP free ∧ used < limit := by
  induction endings using List.reverseRecOn generalizing used with
  | nil =>
      rw [settle_nil, Except.ok.injEq] at goes
      subst goes
      exact ⟨by simp, some⟩
  | append_singleton endings ending ih =>
      cases before : policy.settle endings with
      | error result =>
          unfold settle at goes before
          rw [List.foldlM_append, before] at goes
          cases goes
      | ok earlier =>
          obtain ⟨length, below⟩ := ih before
          rw [settle_concat before] at goes
          rw [List.length_append, List.countP_append, List.length_singleton, List.countP_singleton]
          cases isFree : free ending with
          | true =>
              rw [bounded.spared earlier ending isFree, Except.ok.injEq] at goes
              simp only [↓reduceIte]
              omega
          | false =>
              obtain ⟨next, within⟩ := bounded.counted earlier ending used isFree goes
              simp only [Bool.false_eq_true, ↓reduceIte]
              omega

/-- The endings up to one after which the policy may have returned. -/
theorem length_le (bounded : Bounded policy limit free) (some : 0 < limit) {endings : List Ending}
    {used : Nat} (goes : policy.settle endings = .ok used) (ending : Ending) :
    (endings ++ [ending]).length ≤ limit + (endings ++ [ending]).countP free := by
  obtain ⟨length, below⟩ := bounded.used_eq some goes
  rw [List.length_append, List.countP_append, List.length_singleton]
  omega

end Bounded

end Policy

/-! ## Sleeps that double -/

/-- The sleep after so many others. -/
def doubled (cap count : Nat) : Nat := min (2 ^ count) cap

theorem doubled_succ (cap count : Nat) :
    min (doubled cap count * 2) cap = doubled cap (count + 1) := by
  unfold doubled
  rw [Nat.pow_succ]
  omega

/-- The length of so many sleeps together. -/
def slept (cap : Nat) : Nat → Nat
  | 0 => 0
  | count + 1 => slept cap count + doubled cap count

theorem slept_strictMono {cap : Nat} (some : 0 < cap) : StrictMono (slept cap) := by
  refine strictMono_nat_of_lt_succ fun count => ?_
  have positive : 0 < doubled cap count := Nat.lt_min.mpr ⟨Nat.two_pow_pos count, some⟩
  rw [slept]
  omega

/-- A loop that has slept less has slept less often. -/
theorem slept_lt_iff {cap : Nat} (some : 0 < cap) {first second : Nat} :
    slept cap first < slept cap second ↔ first < second :=
  (slept_strictMono some).lt_iff_lt

end Foundation
