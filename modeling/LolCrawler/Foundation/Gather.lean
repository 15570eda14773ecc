import Mathlib.Data.List.Basic
import Mathlib.Data.List.Forall2
import Mathlib.Data.List.Induction
import Mathlib.Data.List.OfFn

/-! # Lists that a loop fills

A loop over items appends to lists, and writes into the places of a column.
-/

namespace Foundation

section Lists

variable {State Item Entry : Type} {step : State → Item → State} {part : State → List Entry}
  {gathered : Item → List Entry}

/-- The items that are kept, and what is made of them. -/
theorem forall₂_gather {Made : Item → Entry → Prop} {keep : Item → Bool}
    (kept : ∀ item, keep item = true → ∃ entry, gathered item = [entry] ∧ Made item entry)
    (dropped : ∀ item, keep item = false → gathered item = []) (items : List Item) :
    List.Forall₂ Made (items.filter keep) (items.flatMap gathered) := by
  induction items with
  | nil => exact .nil
  | cons item items ih =>
      cases decision : keep item with
      | true =>
          obtain ⟨entry, gathers, made⟩ := kept item decision
          rw [List.filter_cons_of_pos decision, List.flatMap_cons, gathers]
          exact .cons made ih
      | false =>
          rw [List.filter_cons_of_neg (by simp [decision]), List.flatMap_cons,
            dropped item decision]
          exact ih

end Lists

section Columns

variable {Item Entry : Type} {places : Nat} (place : Item → Option (Fin places))
  (value : Item → Entry)

/-- Write an item into its place, if it has one. -/
def writeInto (column : List Entry) (item : Item) : List Entry :=
  match place item with
  | some place => column.set place.val (value item)
  | none => column

/-- In each place, what the last of its items says. -/
def lastWritten (base : Entry) (items : List Item) : List Entry :=
  List.ofFn fun own : Fin places =>
    ((items.filter fun item => place item = some own).getLast?).elim base value

variable {place value} in
/-- A place has what the last item says that names it. -/
theorem getElem?_lastWritten_last {base : Entry} {before after : List Item} {item : Item}
    {own : Fin places} (mine : place item = some own)
    (last : ∀ later ∈ after, place later ≠ some own) :
    (lastWritten place value base (before ++ item :: after))[own.val]? = some (value item) := by
  have nobody : after.filter (fun item => place item = some own) = [] :=
    List.filter_eq_nil_iff.mpr fun later inside same => last later inside (of_decide_eq_true same)
  rw [lastWritten, List.getElem?_ofFn, dif_pos own.isLt, List.filter_append,
    List.filter_cons_of_pos (by simp [mine]), nobody, List.getLast?_concat]
  rfl

variable {place value} in
/-- A place that no item names keeps what it had. -/
theorem getElem?_lastWritten_base {base : Entry} {items : List Item} {own : Fin places}
    (absent : ∀ item ∈ items, place item ≠ some own) :
    (lastWritten place value base items)[own.val]? = some base := by
  have nobody : items.filter (fun item => place item = some own) = [] :=
    List.filter_eq_nil_iff.mpr fun item inside same => absent item inside (of_decide_eq_true same)
  rw [lastWritten, List.getElem?_ofFn, dif_pos own.isLt, nobody]
  rfl

/-- A loop that writes each item into its place leaves in each place what the last of its items
says. -/
theorem foldl_writeInto (base : Entry) (items : List Item) :
    items.foldl (writeInto place value) (List.replicate places base) =
      lastWritten place value base items := by
  induction items using List.reverseRecOn with
  | nil =>
      rw [lastWritten, List.foldl_nil]
      exact (List.ofFn_const places base).symm
  | append_singleton items item ih =>
      rw [List.foldl_append, ih, List.foldl_cons, List.foldl_nil, writeInto]
      cases written : place item with
      | none =>
          have foreign : ∀ own, (items ++ [item]).filter (fun item => place item = some own) =
              items.filter fun item => place item = some own := by
            intro own
            rw [List.filter_append, List.filter_cons_of_neg (by simp [written]), List.filter_nil,
              List.append_nil]
          simp only [lastWritten, foreign]
      | some mine =>
          refine List.ext_getElem? fun index => ?_
          rw [lastWritten, lastWritten, List.getElem?_set, List.length_ofFn, List.getElem?_ofFn,
            List.getElem?_ofFn]
          by_cases inside : index < places
          · rw [dif_pos inside, dif_pos inside, List.filter_append]
            by_cases same : mine.val = index
            · subst same
              rw [if_pos rfl, if_pos mine.isLt, List.filter_cons_of_pos (by simp [written]),
                List.filter_nil, List.getLast?_concat]
              rfl
            · have other : ¬ (place item = some ⟨index, inside⟩) := fun there =>
                same (congrArg Fin.val (Option.some.inj (written.symm.trans there)))
              rw [if_neg same, List.filter_cons_of_neg (by simpa using other), List.filter_nil,
                List.append_nil]
          · rw [dif_neg inside, dif_neg inside]
            by_cases same : mine.val = index
            · exact absurd (same ▸ mine.isLt) inside
            · rw [if_neg same]

end Columns

end Foundation
