import Mathlib.Data.List.Induction

/-! # Times in a sliding window

The times of a list that lie in the half-open window `(now - width, now]`. A list in
order keeps its latest times at the end: the window holds fewer than `limit` of them
exactly when the `limit`-th newest has left it (`within_lt_iff`).
-/

namespace Foundation

/-- How many of the times lie in the window of this width that ends now. -/
def within (width now : Nat) (times : List Nat) : Nat :=
  times.countP fun time => time ≤ now ∧ now < time + width

section Counts

variable {width now later : Nat} {times other : List Nat}

theorem within_append : within width now (times ++ other) =
    within width now times + within width now other := List.countP_append

theorem within_le_length : within width now times ≤ times.length := List.countP_le_length

/-- Without new times the window only empties. -/
theorem within_later (past : ∀ time ∈ times, time ≤ now) (ahead : now ≤ later) :
    within width later times ≤ within width now times := by
  apply List.countP_mono_left
  intro time inside here
  simp only [decide_eq_true_eq] at here ⊢
  have earlier := past time inside
  omega

theorem within_eq_zero (gone : ∀ time ∈ times, time + width ≤ now) :
    within width now times = 0 := by
  apply List.countP_eq_zero.mpr
  intro time inside here
  have out := gone time inside
  simp only [decide_eq_true_eq] at here
  omega

/-- Only the times in the window count. -/
theorem within_filter :
    within width now (times.filter fun time => now < time + width) = within width now times := by
  rw [within, within, List.countP_filter]
  apply List.countP_congr
  intro time _
  simp only [Bool.and_eq_true, decide_eq_true_eq]
  omega

/-- Times that have left the window do not count. -/
theorem within_drop (gone : ∀ time ∈ times, time + width ≤ now) :
    within width now (times ++ other) = within width now other := by
  rw [within_append, within_eq_zero gone, Nat.zero_add]

theorem within_eq_length (inside : ∀ time ∈ times, time ≤ now ∧ now < time + width) :
    within width now times = times.length := by
  apply List.countP_eq_length.mpr
  intro time here
  exact decide_eq_true (inside time here)

/-- Distinct places that hold times of the window are no more than the window holds. -/
theorem length_le_within {places : List Nat} (distinct : places.Nodup)
    (inside : ∀ place ∈ places, ∃ time, times[place]? = some time ∧
      time ≤ now ∧ now < time + width) : places.length ≤ within width now times := by
  induction times using List.reverseRecOn generalizing places with
  | nil =>
      cases places with
      | nil => exact Nat.zero_le _
      | cons place places =>
          obtain ⟨time, there, -⟩ := inside place List.mem_cons_self
          cases there
  | append_singleton times last ih =>
      have others : ∀ place ∈ places.erase times.length, ∃ time, times[place]? = some time ∧
          time ≤ now ∧ now < time + width := by
        intro place among
        obtain ⟨different, among⟩ := (List.Nodup.mem_erase_iff distinct).mp among
        obtain ⟨time, there, held⟩ := inside place among
        obtain ⟨bound, -⟩ := List.getElem?_eq_some_iff.mp there
        rw [List.length_append, List.length_singleton] at bound
        rw [List.getElem?_append_left (by omega)] at there
        exact ⟨time, there, held⟩
      have fewer := ih (distinct.erase _) others
      rw [within_append]
      by_cases newest : times.length ∈ places
      · obtain ⟨time, there, held⟩ := inside _ newest
        rw [List.getElem?_append_right (Nat.le_refl _), Nat.sub_self] at there
        cases there
        have one : within width now [last] = 1 := by
          apply within_eq_length
          intro time same
          rw [List.mem_singleton.mp same]
          exact held
        have length := List.length_erase_of_mem newest
        omega
      · rw [List.erase_of_not_mem newest] at fewer
        omega

end Counts

section Ordered

variable {width now limit : Nat} {times : List Nat}

/-- The window holds the newest times, as long as these are in it. -/
theorem within_newest (ordered : times.Pairwise (· ≤ ·)) (past : ∀ time ∈ times, time ≤ now) :
    (times.reverse.takeWhile fun time => now - time < width).length = within width now times := by
  induction times using List.reverseRecOn with
  | nil => rfl
  | append_singleton times newest ih =>
      rw [List.pairwise_append] at ordered
      obtain ⟨ordered, -, below⟩ := ordered
      have here := past newest (by simp)
      rw [List.reverse_append, List.reverse_singleton, List.singleton_append, within_append,
        List.takeWhile_cons]
      by_cases inside : now - newest < width
      · have one : within width now [newest] = 1 :=
          within_eq_length fun time same => by
            rw [List.mem_singleton] at same
            omega
        simp only [inside, decide_true, ↓reduceIte, List.length_cons]
        rw [ih ordered fun time there => past time (by simp [there]), one]
      · have none : ∀ time ∈ times, time + width ≤ now := by
          intro time there
          have order := below time there newest (by simp)
          omega
        have out : within width now [newest] = 0 :=
          within_eq_zero fun time same => by
            rw [List.mem_singleton] at same
            omega
        simp only [inside, decide_false, Bool.false_eq_true, ↓reduceIte, List.length_nil]
        rw [within_eq_zero none, out]

/-- What is dropped from the front of an ordered list is all that is out of the window. -/
theorem dropWhile_eq_filter (ordered : times.Pairwise (· ≤ ·)) :
    (times.dropWhile fun time => width ≤ now - time) =
      times.filter fun time => now - time < width := by
  induction times with
  | nil => rfl
  | cons oldest times ih =>
      rw [List.pairwise_cons] at ordered
      obtain ⟨above, ordered⟩ := ordered
      rw [List.dropWhile_cons, List.filter_cons]
      by_cases inside : now - oldest < width
      · have all : ∀ time ∈ times, decide (now - time < width) = true := by
          intro time there
          have order := above time there
          exact decide_eq_true (by omega)
        rw [if_neg (by simpa using inside), if_pos (decide_eq_true inside),
          List.filter_eq_self.mpr all]
      · rw [if_pos (by simpa using inside), if_neg (by simpa using inside)]
        exact ih ordered

/-- **The newest times.** The window has room when the `limit`-th newest time has left it. -/
theorem within_lt_iff {newest : Nat} (ordered : times.Pairwise (· ≤ ·))
    (past : ∀ time ∈ times, time ≤ now) (enough : limit ≤ times.length)
    (nth : times[times.length - limit]? = some newest) :
    within width now times < limit ↔ newest + width ≤ now := by
  obtain ⟨bound, here⟩ := List.getElem?_eq_some_iff.mp nth
  have halves : times = times.take (times.length - limit) ++
      newest :: times.drop (times.length - limit + 1) := by
    rw [← here, ← List.drop_eq_getElem_cons bound, List.take_append_drop]
  have length : (times.drop (times.length - limit + 1)).length + 1 = limit := by
    rw [List.length_drop]
    omega
  generalize times.take (times.length - limit) = old at halves
  generalize times.drop (times.length - limit + 1) = new at halves length
  subst halves
  rw [List.pairwise_append, List.pairwise_cons] at ordered
  obtain ⟨-, ⟨above, -⟩, below⟩ := ordered
  constructor
  · intro room
    by_contra still
    have full : within width now (newest :: new) = (newest :: new).length := by
      apply within_eq_length
      intro time inside
      have before := past time (by simp [inside])
      rcases List.mem_cons.mp inside with rfl | inside
      · omega
      · have order := above time inside
        omega
    rw [within_append, full, List.length_cons] at room
    omega
  · intro left
    have out : ∀ time ∈ old ++ [newest], time + width ≤ now := by
      intro time inside
      rcases List.mem_append.mp inside with inside | same
      · have order := below time inside newest (by simp)
        omega
      · rw [List.mem_singleton] at same
        omega
    have rest := @within_le_length width now new
    rw [List.append_cons, within_drop out]
    omega

end Ordered

end Foundation
