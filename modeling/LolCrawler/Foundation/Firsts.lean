import Mathlib.Data.List.Nodup

/-! # The first distinct elements of a kind

`(elements.filter wanted).eraseDups.take count` are the first so many distinct elements of
a list that are wanted, in its order. A cheaper way to get at them is to cut the list first
and then drop what is known to be bad; `take_filter_eq_iff` says when the two agree.
-/

namespace Foundation

variable {α : Type} [DecidableEq α] {elements : List α}

theorem nodup_eraseDups (elements : List α) : elements.eraseDups.Nodup := by
  induction size : elements.length using Nat.strongRecOn generalizing elements with
  | ind size ih =>
      cases elements with
      | nil => exact List.nodup_nil
      | cons first rest =>
          rw [List.eraseDups_cons, List.nodup_cons]
          constructor
          · intro again
            simpa using List.of_mem_filter (List.mem_eraseDups.mp again)
          · refine ih _ ?_ _ rfl
            have fewer := List.length_filter_le (fun other => !other == first) rest
            rw [List.length_cons] at size
            omega

theorem eraseDups_of_nodup (distinct : elements.Nodup) : elements.eraseDups = elements := by
  induction elements with
  | nil => rfl
  | cons first rest ih =>
      rw [List.nodup_cons] at distinct
      have others : rest.filter (fun other => !other == first) = rest := by
        rw [List.filter_eq_self]
        intro other inside
        have different : other ≠ first := fun same => distinct.1 (same ▸ inside)
        simpa using different
      rw [List.eraseDups_cons, others, ih distinct.2]

section Cut

variable {good wanted : α → Bool} {count : Nat}

/-- What follows the cut adds the wanted elements that are not in front of it. -/
theorem eraseDups_filter_cut (elements : List α) (count : Nat) :
    (elements.filter wanted).eraseDups =
      ((elements.take count).filter wanted).eraseDups ++
        (((elements.drop count).filter wanted).removeAll
          ((elements.take count).filter wanted)).eraseDups := by
  rw [← List.eraseDups_append, ← List.filter_append, List.take_append_drop]

/-- **Cutting first.** The good elements in front of the cut are the first so many distinct wanted
ones exactly when each of them is wanted and there once, and no element in front of the cut is bad
unless nothing else is wanted. -/
theorem take_filter_eq_iff (implied : ∀ element, wanted element = true → good element = true) :
    (elements.take count).filter good = (elements.filter wanted).eraseDups.take count ↔
      (∀ element ∈ elements.take count, good element = true → wanted element = true) ∧
        ((elements.take count).filter good).Nodup ∧
        ((∀ element ∈ elements.take count, good element = true) ∨
          ∀ element ∈ elements, wanted element = true → element ∈ elements.take count) := by
  have short : (elements.take count).length ≤ count := List.length_take_le _ _
  constructor
  · intro same
    have members : ∀ element ∈ (elements.take count).filter good,
        element ∈ (elements.filter wanted).eraseDups := by
      rw [same]
      exact fun element inside => List.mem_of_mem_take inside
    refine ⟨fun element inside fine => ?_, ?_, ?_⟩
    · have there := members element (List.mem_filter.mpr ⟨inside, fine⟩)
      exact List.of_mem_filter (List.mem_eraseDups.mp there)
    · rw [same]
      exact (nodup_eraseDups _).sublist (List.take_sublist _ _)
    · by_cases all : ∀ element ∈ elements.take count, good element = true
      · exact .inl all
      · -- A bad element leaves room, so there is nothing that does not fit.
        right
        intro element inside want
        have fewer : ((elements.take count).filter good).length < (elements.take count).length := by
          refine Nat.lt_of_le_of_ne (List.length_filter_le _ _) fun equal => all ?_
          exact List.length_filter_eq_length_iff.mp equal
        have whole : (elements.filter wanted).eraseDups.take count =
            (elements.filter wanted).eraseDups := by
          apply List.take_of_length_le
          have length := congrArg List.length same
          rw [List.length_take] at length
          omega
        have there : element ∈ (elements.take count).filter good := by
          rw [same, whole, List.mem_eraseDups]
          exact List.mem_filter.mpr ⟨inside, want⟩
        exact List.mem_of_mem_filter there
  · rintro ⟨fine, distinct, room⟩
    have front : (elements.take count).filter wanted = (elements.take count).filter good := by
      apply List.filter_congr
      intro element inside
      rw [Bool.eq_iff_iff]
      exact ⟨implied element, fine element inside⟩
    rw [eraseDups_filter_cut elements count, front, eraseDups_of_nodup distinct]
    generalize beyond : (((elements.drop count).filter wanted).removeAll
      ((elements.take count).filter good)).eraseDups = others
    rcases room with all | none
    · rw [List.filter_eq_self.mpr all]
      by_cases full : (elements.take count).length = count
      · rw [List.take_append_of_le_length (Nat.le_of_eq full.symm),
          List.take_of_length_le short]
      · have ended : elements.drop count = [] := by
          rw [List.length_take] at full
          rw [List.drop_eq_nil_iff]
          omega
        rw [ended] at beyond
        have nothing : others = [] := beyond.symm
        rw [nothing, List.append_nil, List.take_of_length_le short]
    · have nothing : others = [] := by
        rw [List.eq_nil_iff_forall_not_mem]
        intro element inside
        rw [← beyond, List.mem_eraseDups, List.removeAll, List.mem_filter] at inside
        obtain ⟨there, apart⟩ := inside
        have want := List.of_mem_filter there
        have early := none element (List.mem_of_mem_drop (List.mem_of_mem_filter there)) want
        have kept : element ∈ (elements.take count).filter good :=
          List.mem_filter.mpr ⟨early, implied element want⟩
        simp [kept] at apart
      rw [nothing, List.append_nil]
      exact (List.take_of_length_le (Nat.le_trans (List.length_filter_le _ _) short)).symm

end Cut

end Foundation
