import Mathlib

/-! # A switch with two thresholds

A switch that goes on at a high value and off at a low one, and stays where it is between
them. Whether it is on is told by the values since the last high one
(`Foundation.hysteresis_iff`).
-/

namespace Foundation

/-- Where a list with one more entry is split. -/
theorem concat_eq_split {Entry : Type*} {entries before after : List Entry} {last entry : Entry} :
    entries ++ [last] = before ++ entry :: after ↔
      after = [] ∧ entries = before ∧ last = entry ∨
        ∃ rest, after = rest ++ [last] ∧ entries = before ++ entry :: rest := by
  constructor
  · intro same
    rcases List.eq_nil_or_concat' after with rfl | ⟨rest, final, rfl⟩
    · obtain ⟨whole, one⟩ := List.append_inj' same rfl
      exact .inl ⟨rfl, whole, List.singleton_inj.mp one⟩
    · rw [← List.cons_append, ← List.append_assoc] at same
      obtain ⟨whole, one⟩ := List.append_inj' same rfl
      exact .inr ⟨rest, by rw [List.singleton_inj.mp one], whole⟩
  · rintro (⟨rfl, rfl, rfl⟩ | ⟨rest, rfl, rfl⟩)
    · rfl
    · rw [List.append_assoc]
      rfl

variable {Value : Type*} [LinearOrder Value]

/-- The switch after one more value. -/
def switched (low high : Value) (on : Bool) (value : Value) : Bool :=
  if on then !decide (value ≤ low) else decide (high ≤ value)

/-- A switch that was off, after these values. -/
def hysteresis (low high : Value) (values : List Value) : Bool :=
  values.foldl (switched low high) false

theorem hysteresis_concat (low high : Value) (values : List Value) (value : Value) :
    hysteresis low high (values ++ [value]) =
      switched low high (hysteresis low high values) value := by
  rw [hysteresis, List.foldl_append]
  rfl

/-- **The switch** is on if a high value came and no low one since. -/
theorem hysteresis_iff {low high : Value} (apart : low < high) (values : List Value) :
    hysteresis low high values = true ↔
      ∃ before value after, values = before ++ value :: after ∧ high ≤ value ∧
        ∀ later ∈ after, low < later := by
  induction values using List.reverseRecOn with
  | nil =>
      refine ⟨nofun, fun ⟨before, value, after, same, _⟩ => ?_⟩
      exact (List.append_ne_nil_of_right_ne_nil _ (List.cons_ne_nil _ _) same.symm).elim
  | append_singleton values last ih =>
      rw [hysteresis_concat]
      simp only [concat_eq_split]
      unfold switched
      cases on : hysteresis low high values with
      | true =>
          obtain ⟨before, value, after, here, above, rest⟩ := ih.mp on
          rw [if_pos rfl, Bool.not_eq_true', decide_eq_false_iff_not, not_le]
          constructor
          · intro lasting
            refine ⟨before, value, after ++ [last], .inr ⟨after, rfl, here⟩, above, ?_⟩
            intro later inside
            rcases List.mem_append.mp inside with inside | same
            · exact rest later inside
            · exact List.mem_singleton.mp same ▸ lasting
          · rintro ⟨before, value, after, ⟨-, -, rfl⟩ | ⟨rest, rfl, -⟩, above, lasting⟩
            · exact lt_of_lt_of_le apart above
            · exact lasting last (List.mem_append_right _ (List.mem_singleton_self _))
      | false =>
          rw [if_neg Bool.false_ne_true, decide_eq_true_eq]
          constructor
          · intro above
            exact ⟨values, last, [], .inl ⟨rfl, rfl, rfl⟩, above, nofun⟩
          · rintro ⟨before, value, after, ⟨-, -, rfl⟩ | ⟨rest, rfl, here⟩, above, lasting⟩
            · exact above
            · have held := ih.mpr ⟨before, value, rest, here, above, fun later inside =>
                lasting later (List.mem_append_left _ inside)⟩
              rw [on] at held
              cases held

end Foundation
