import Mathlib.Algebra.BigOperators.Group.Finset.Basic
import Mathlib.Algebra.BigOperators.Pi
import Mathlib.Algebra.Ring.Nat
import Mathlib.Data.Fintype.BigOperators
import LolCrawler.Foundation.Table

/-! # Tallies

A history is a list of values with keys. Tables and rings keep sums of it: a table one
for each key, a ring one for each of the last `n` ticks, in the slot of their residue.
Two histories with the same sum at each key have the same sum over every set of keys
(`sumOn_congr`). A ring clears the slots it skips when it moves on, and the sum of its
slots is that of the ticks in the window (`SlotRing.Holds.total`).
-/

namespace Foundation

open Finset

variable {K M : Type} [AddCommMonoid M]

/-- The sum of the values at these keys. -/
def sumOn (keys : K → Bool) (entries : List (K × M)) : M :=
  ((entries.filter fun entry => keys entry.1).map Prod.snd).sum

section Sums

variable {keys : K → Bool} {entries other : List (K × M)} {key : K} {value : M}

/-- The sum over no entry is zero. -/
@[simp] theorem sumOn_nil : sumOn keys ([] : List (K × M)) = 0 := rfl

/-- The first entry, and the others. -/
theorem sumOn_cons : sumOn keys ((key, value) :: entries) =
    (if keys key then value else 0) + sumOn keys entries := by
  rw [sumOn, List.filter_cons]
  split
  · rw [List.map_cons, List.sum_cons]
    rfl
  · rw [zero_add]
    rfl

/-- Two parts are added up. -/
theorem sumOn_append : sumOn keys (entries ++ other) = sumOn keys entries + sumOn keys other := by
  rw [sumOn, List.filter_append, List.map_append, List.sum_append]
  rfl

/-- The sum over one entry is its value if the key is asked for. -/
theorem sumOn_singleton : sumOn keys [(key, value)] = if keys key then value else 0 := by
  rw [sumOn_cons, sumOn_nil, add_zero]

/-- Keys that agree on the entries have the same sum. -/
theorem sumOn_keys {others : K → Bool}
    (same : ∀ entry ∈ entries, keys entry.1 = others entry.1) :
    sumOn keys entries = sumOn others entries := by
  rw [sumOn, sumOn, List.filter_congr same]

/-- Mapped keys are summed as the keys they come from. -/
theorem sumOn_map {J : Type} (f : J → K) (history : List (J × M)) :
    sumOn keys (history.map fun entry => (f entry.1, entry.2)) =
      sumOn (fun key => keys (f key)) history := by
  induction history with
  | nil => rfl
  | cons entry history ih => rw [List.map_cons, sumOn_cons, sumOn_cons, ih]

variable [DecidableEq K]

/-- The sum over a set of keys that holds all those of the history. -/
theorem sumOn_eq_sum (among : Finset K) (inside : ∀ entry ∈ entries, entry.1 ∈ among) :
    sumOn keys entries =
      ∑ key ∈ among, if keys key then sumOn (fun other => other = key) entries else 0 := by
  induction entries with
  | nil => simp
  | cons entry entries ih =>
      rw [List.forall_mem_cons] at inside
      have here : (∑ key ∈ among, if keys key then
          (if decide (entry.1 = key) = true then entry.2 else 0) else 0) =
            if keys entry.1 then entry.2 else 0 := by
        rw [Finset.sum_eq_single_of_mem entry.1 inside.1]
        · simp
        · intro other _ different
          simp [Ne.symm different]
      rw [sumOn_cons, ih inside.2, ← here, ← Finset.sum_add_distrib]
      apply Finset.sum_congr rfl
      intro key _
      rw [sumOn_cons]
      split
      · rfl
      · exact zero_add 0

/-- **Sums by key.** What agrees at each of the keys agrees over all of them. -/
theorem sumOn_congr (same : ∀ key, keys key = true →
      sumOn (fun other => other = key) entries = sumOn (fun other => other = key) other) :
    sumOn keys entries = sumOn keys other := by
  have among : ∀ entry ∈ entries ++ other,
      entry.1 ∈ ((entries ++ other).map Prod.fst).toFinset := by
    intro entry inside
    exact List.mem_toFinset.mpr (List.mem_map_of_mem inside)
  rw [sumOn_eq_sum _ fun entry inside => among entry (List.mem_append_left _ inside),
    sumOn_eq_sum _ fun entry inside => among entry (List.mem_append_right _ inside)]
  apply Finset.sum_congr rfl
  intro key _
  split
  · next holds => exact same key holds
  · rfl

/-- The value of a key in a table. -/
theorem Table.sumOn_key (table : Table K M) (key : K) :
    sumOn (fun other => other = key) table.entries = (table.get key).getD 0 := by
  cases found : table.get key with
  | none =>
      have none : table.entries.filter (fun entry => entry.1 = key) = [] := by
        rw [List.filter_eq_nil_iff]
        intro entry inside same
        have here : table.get entry.1 = some entry.2 := Table.get_eq_some.mpr inside
        rw [of_decide_eq_true same, found] at here
        cases here
      rw [sumOn, none]
      rfl
  | some value =>
      rw [sumOn, filter_key table.distinct (Table.get_eq_some.mp found)]
      exact add_zero value

end Sums

/-! ## Rings -/

/-- A slot for each residue of a tick. -/
structure SlotRing (n : Nat) (M : Type) where
  slots : Fin n → M
  /-- The tick the ring has reached. -/
  head : Nat

namespace SlotRing

variable {n : Nat} [NeZero n]

def empty (head : Nat) : SlotRing n M := ⟨0, head⟩

/-- Moves the head, and clears every slot it skips. -/
def advance (ring : SlotRing n M) (tick : Nat) : SlotRing n M :=
  if tick ≤ ring.head then ring
  else
    let steps := min (tick - ring.head) n
    { slots := (List.range' 1 steps).foldl
        (fun slots i => Function.update slots (Fin.ofNat n (ring.head + i)) 0) ring.slots
      head := tick }

/-- Adds to the slot of the head. -/
def add (ring : SlotRing n M) (value : M) : SlotRing n M :=
  { ring with
    slots := Function.update ring.slots (Fin.ofNat n ring.head)
      (ring.slots (Fin.ofNat n ring.head) + value) }

/-- The slots hold what is in the window of `n` ticks that ends at the head. -/
structure Holds (ring : SlotRing n M) (history : List (Nat × M)) : Prop where
  past : ∀ entry ∈ history, entry.1 ≤ ring.head
  slots : ∀ slot, ring.slots slot =
    sumOn (fun tick => Fin.ofNat n tick = slot && ring.head < tick + n) history

/-- The slots that are passed are cleared. -/
theorem foldl_clear (head : Nat) (ticks : List Nat) (slots : Fin n → M) (slot : Fin n) :
    ticks.foldl (fun slots i => Function.update slots (Fin.ofNat n (head + i)) 0) slots slot =
      if ∃ i ∈ ticks, Fin.ofNat n (head + i) = slot then 0 else slots slot := by
  induction ticks generalizing slots with
  | nil => simp
  | cons tick ticks ih =>
      rw [List.foldl_cons, ih]
      by_cases later : ∃ i ∈ ticks, Fin.ofNat n (head + i) = slot
      · obtain ⟨i, inside, same⟩ := later
        rw [if_pos ⟨i, inside, same⟩, if_pos ⟨i, List.mem_cons_of_mem _ inside, same⟩]
      · rw [if_neg later]
        by_cases here : Fin.ofNat n (head + tick) = slot
        · rw [if_pos ⟨tick, List.mem_cons_self, here⟩, ← here, Function.update_self]
        · rw [Function.update_of_ne (Ne.symm here), if_neg]
          rintro ⟨i, inside, same⟩
          rcases List.mem_cons.mp inside with rfl | inside
          · exact here same
          · exact later ⟨i, inside, same⟩

/-- Two numbers have one slot if they agree up to the size. -/
theorem ofNat_eq_iff {first second : Nat} :
    Fin.ofNat n first = Fin.ofNat n second ↔ first % n = second % n := by
  rw [Fin.ext_iff]
  rfl

namespace Holds

variable {ring : SlotRing n M} {history : List (Nat × M)}

/-- An empty ring holds nothing. -/
theorem empty (head : Nat) : Holds (.empty head : SlotRing n M) [] :=
  ⟨nofun, fun _ => rfl⟩

/-- **The head moves.** However far it goes, the slots it skips are those whose ticks leave. -/
theorem advance (holds : Holds ring history) {tick : Nat} (ahead : ring.head ≤ tick) :
    Holds (ring.advance tick) history ∧ (ring.advance tick).head = tick := by
  have size : 0 < n := Nat.pos_of_neZero n
  rw [SlotRing.advance]
  split
  · next still =>
      have same : ring.head = tick := Nat.le_antisymm ahead still
      exact ⟨holds, same⟩
  · next moves =>
      refine ⟨⟨fun entry inside => Nat.le_trans (holds.past entry inside) ahead, fun slot => ?_⟩,
        rfl⟩
      dsimp only
      rw [foldl_clear, holds.slots]
      split
      · next cleared =>
          obtain ⟨i, inside, rfl⟩ := cleared
          rw [List.mem_range'_1] at inside
          -- A tick of a cleared slot lies a whole turn behind.
          have none : history.filter (fun entry =>
              Fin.ofNat n entry.1 = Fin.ofNat n (ring.head + i) && tick < entry.1 + n) = [] := by
            rw [List.filter_eq_nil_iff]
            intro entry among here
            have before := holds.past entry among
            simp only [Bool.and_eq_true, decide_eq_true_eq, ofNat_eq_iff] at here
            obtain ⟨same, recent⟩ := here
            have divides : n ∣ ring.head + i - entry.1 :=
              Nat.dvd_of_mod_eq_zero (Nat.sub_mod_eq_zero_of_mod_eq same.symm)
            have turn := Nat.le_of_dvd (by omega) divides
            omega
          rw [sumOn, none]
          rfl
      · next kept =>
          apply sumOn_keys
          intro entry among
          have before := holds.past entry among
          by_cases here : Fin.ofNat n entry.1 = slot
          · simp only [here, decide_true, Bool.true_and, decide_eq_decide]
            constructor
            · intro recent
              by_contra gone
              -- Otherwise the tick one turn later is skipped.
              apply kept
              refine ⟨entry.1 + n - ring.head, ?_, ?_⟩
              · rw [List.mem_range'_1]
                omega
              · rw [← here, ofNat_eq_iff]
                have whole : ring.head + (entry.1 + n - ring.head) = entry.1 + n := by omega
                rw [whole, Nat.add_mod_right]
            · intro recent
              omega
          · simp only [here, decide_false, Bool.false_and]

/-- A value is added at the head. -/
theorem add (holds : Holds ring history) (value : M) :
    Holds (ring.add value) (history ++ [(ring.head, value)]) := by
  have size : 0 < n := Nat.pos_of_neZero n
  refine ⟨fun entry inside => ?_, fun slot => ?_⟩
  · rcases List.mem_append.mp inside with inside | same
    · exact holds.past entry inside
    · rw [List.mem_singleton.mp same]
      exact Nat.le_refl _
  · rw [sumOn_append, sumOn_singleton, SlotRing.add]
    dsimp only
    rw [← holds.slots]
    by_cases here : Fin.ofNat n ring.head = slot
    · subst here
      rw [Function.update_self, if_pos (by simpa using size)]
    · rw [Function.update_of_ne (Ne.symm here), decide_eq_false here, Bool.false_and,
        if_neg Bool.false_ne_true, add_zero]

/-- **The window.** The slots together hold the last `n` ticks. -/
theorem total (holds : Holds ring history) :
    ∑ slot, ring.slots slot = sumOn (fun tick => ring.head < tick + n) history := by
  rw [Finset.sum_congr rfl fun slot _ => holds.slots slot]
  generalize ring.head = head
  clear holds
  induction history with
  | nil => simp
  | cons entry history ih =>
      rw [sumOn_cons, ← ih, Finset.sum_congr rfl fun slot _ => sumOn_cons, Finset.sum_add_distrib]
      congr 1
      rw [Finset.sum_eq_single_of_mem (Fin.ofNat n entry.1) (Finset.mem_univ _)]
      · simp
      · intro slot _ different
        rw [decide_eq_false (Ne.symm different), Bool.false_and, if_neg Bool.false_ne_true]

end Holds

end SlotRing

end Foundation
