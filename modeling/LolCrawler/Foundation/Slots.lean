import Mathlib.Data.Fintype.EquivFin
import Mathlib.Data.List.Basic
import Mathlib.Data.List.NodupEquivFin
import Mathlib.Logic.Equiv.Defs

/-! # Members and slots

Each member of a group names one slot, or none. Who names a slot first gets it, and the others
take what is left. With as many members as slots each slot is taken by one member, and a table
that is written slot by slot is the inverse of the order.
-/

namespace Foundation

/-- The members in the slots, and those that have none, in the order in which they came. -/
structure Slots where
  slotOf : List (Option Nat)
  unplaced : List Nat

namespace Slots

def empty (count : Nat) : Slots := ⟨List.replicate count none, []⟩

/-- A member gets the slot it names if nobody has it. -/
def place (slots : Slots) : Option Nat × Nat → Slots
  | (some slot, member) =>
      if slots.slotOf[slot]? = some none then
        { slots with slotOf := slots.slotOf.set slot (some member) }
      else { slots with unplaced := slots.unplaced ++ [member] }
  | (none, member) => { slots with unplaced := slots.unplaced ++ [member] }

/-- Each free slot takes the last member that has none. -/
def fill : List (Option Nat) → List Nat → List (Option Nat)
  | [], _ => []
  | some member :: slotOf, unplaced => some member :: fill slotOf unplaced
  | none :: slotOf, unplaced => unplaced.getLast? :: fill slotOf unplaced.dropLast

/-- The members slot by slot. -/
def repair (count : Nat) (wishes : List (Option Nat)) : List (Option Nat) :=
  let slots := wishes.zipIdx.foldl place (empty count)
  fill slots.slotOf slots.unplaced

/-! ## Placing -/

/-- Between two members. -/
structure Placed (count : Nat) (wishes : List (Option Nat)) (slots : Slots) : Prop where
  length : slots.slotOf.length = count
  members : (slots.slotOf.filterMap id ++ slots.unplaced).Perm (List.range wishes.length)
  /-- Who has a slot named it. -/
  named : ∀ slot member : Nat, slots.slotOf[slot]? = some (some member) →
    wishes[member]? = some (some slot)
  /-- Who names a slot first has it. -/
  first : ∀ slot member : Nat, slot < count → wishes[member]? = some (some slot) →
    (∀ earlier < member, wishes[earlier]? ≠ some (some slot)) →
    slots.slotOf[slot]? = some (some member)

/-- Nobody is placed yet. -/
theorem placed_empty (count : Nat) : Placed count [] (empty count) where
  length := List.length_replicate
  members := by
    rw [empty, List.append_nil, List.filterMap_replicate_of_none rfl]
    exact List.Perm.refl _
  named := by
    intro slot member taken
    have inside := List.mem_of_getElem? taken
    exact (Option.some_ne_none _ (List.eq_of_mem_replicate inside)).elim
  first := by
    intro slot member _ named
    exact (Option.some_ne_none _ named.symm).elim

/-- Taking a free slot adds one member. -/
theorem filterMap_set_perm {slotOf : List (Option Nat)} {slot : Nat} (member : Nat)
    (free : slotOf[slot]? = some none) :
    ((slotOf.set slot (some member)).filterMap id).Perm (member :: slotOf.filterMap id) := by
  induction slotOf generalizing slot with
  | nil => exact (Option.some_ne_none _ free.symm).elim
  | cons held slotOf ih =>
      cases slot with
      | zero =>
          rw [List.getElem?_cons_zero, Option.some.injEq] at free
          subst free
          exact List.Perm.refl _
      | succ slot =>
          rw [List.getElem?_cons_succ] at free
          rw [List.set_cons_succ]
          cases held with
          | none => exact ih free
          | some other =>
              exact ((ih free).cons other).trans (List.Perm.swap member other _)

/-- Members that come later leave what was said of the earlier ones. -/
theorem getElem?_concat_some {wishes : List (Option Nat)} {wish : Option Nat} {member slot : Nat}
    (named : (wishes ++ [wish])[member]? = some (some slot)) :
    wishes[member]? = some (some slot) ∨ member = wishes.length ∧ wish = some slot := by
  rw [List.getElem?_append] at named
  split at named
  · exact .inl named
  · next beyond =>
      rw [List.getElem?_singleton] at named
      split at named
      · next last => exact .inr ⟨by omega, Option.some.inj named⟩
      · exact (Option.some_ne_none _ named.symm).elim

namespace Placed

variable {count : Nat} {wishes : List (Option Nat)} {slots : Slots}

/-- An earlier wish stays what it was. -/
theorem earlier {wish : Option Nat} {member slot : Nat}
    (named : wishes[member]? = some (some slot)) :
    (wishes ++ [wish])[member]? = some (some slot) := by
  rw [List.getElem?_append_left (List.getElem?_eq_some_iff.mp named).1]
  exact named

/-- A member that gets no slot waits. -/
theorem wait (placed : Placed count wishes slots) (wish : Option Nat)
    (taken : ∀ slot, slot < count → wish = some slot → ∃ member < wishes.length,
      wishes[member]? = some (some slot)) :
    Placed count (wishes ++ [wish])
      { slots with unplaced := slots.unplaced ++ [wishes.length] } where
  length := placed.length
  members := by
    rw [← List.append_assoc, List.length_append, List.length_singleton, List.range_succ]
    exact placed.members.append_right _
  named := fun slot member held => earlier (placed.named slot member held)
  first := by
    intro slot member bound named none
    rcases getElem?_concat_some named with before | ⟨rfl, rfl⟩
    · exact placed.first slot member bound before fun other less same =>
        none other less (earlier same)
    · obtain ⟨other, less, same⟩ := taken slot bound rfl
      exact absurd (earlier same) (none other less)

/-- A member that gets its slot is the first to name it. -/
theorem take (placed : Placed count wishes slots) {slot : Nat}
    (free : slots.slotOf[slot]? = some none) :
    Placed count (wishes ++ [some slot])
      { slots with slotOf := slots.slotOf.set slot (some wishes.length) } where
  length := by rw [List.length_set]; exact placed.length
  members := by
    rw [List.length_append, List.length_singleton, List.range_succ]
    refine ((filterMap_set_perm wishes.length free).append_right _).trans ?_
    exact (placed.members.cons _).trans (List.perm_append_singleton _ _).symm
  named := by
    intro other member held
    rw [List.getElem?_set] at held
    by_cases same : slot = other
    · subst same
      rw [if_pos rfl, if_pos (List.getElem?_eq_some_iff.mp free).1] at held
      rw [← Option.some.inj (Option.some.inj held), List.getElem?_concat_length]
    · rw [if_neg same] at held
      exact earlier (placed.named other member held)
  first := by
    intro other member bound named none
    rw [List.getElem?_set]
    by_cases same : slot = other
    · subst same
      rw [if_pos rfl, if_pos (List.getElem?_eq_some_iff.mp free).1]
      rcases getElem?_concat_some named with before | ⟨rfl, -⟩
      · have held := placed.first slot member bound before fun other less same =>
          none other less (earlier same)
        rw [free] at held
        exact (Option.some_ne_none _ (Option.some.inj held).symm).elim
      · rfl
    · rw [if_neg same]
      rcases getElem?_concat_some named with before | ⟨rfl, wish⟩
      · exact placed.first other member bound before fun other less same =>
          none other less (earlier same)
      · exact absurd (Option.some.inj wish) same

/-- Placing one more member keeps the others where they are placed. -/
theorem step (placed : Placed count wishes slots) (wish : Option Nat) :
    Placed count (wishes ++ [wish]) (slots.place (wish, wishes.length)) := by
  cases wish with
  | none =>
      exact placed.wait none fun slot _ absent => (Option.some_ne_none _ absent.symm).elim
  | some slot =>
      rw [place]
      by_cases free : slots.slotOf[slot]? = some none
      · rw [if_pos free]
        exact placed.take free
      · rw [if_neg free]
        refine placed.wait (some slot) fun other bound same => ?_
        cases same
        have inside : slot < slots.slotOf.length := placed.length ▸ bound
        rw [List.getElem?_eq_getElem inside, Option.some.injEq] at free
        obtain ⟨member, held⟩ := Option.ne_none_iff_exists'.mp free
        have there := placed.named slot member (by
          rw [List.getElem?_eq_getElem inside, held])
        exact ⟨member, (List.getElem?_eq_some_iff.mp there).1, there⟩

end Placed

/-- All members are placed in order. -/
theorem placed_foldl (count : Nat) (wishes : List (Option Nat)) :
    Placed count wishes (wishes.zipIdx.foldl place (empty count)) := by
  induction wishes using List.reverseRecOn with
  | nil => exact placed_empty count
  | append_singleton wishes wish ih =>
      rw [List.zipIdx_append, List.foldl_append, Nat.zero_add]
      exact ih.step wish

/-! ## Filling -/

/-- With as many members waiting as there are free slots, each slot is taken. -/
theorem fill_spec {slotOf : List (Option Nat)} {unplaced : List Nat}
    (enough : slotOf.count none = unplaced.length) :
    ∃ order : List Nat, fill slotOf unplaced = order.map some ∧
      order.Perm (slotOf.filterMap id ++ unplaced) ∧
      ∀ slot member : Nat, slotOf[slot]? = some (some member) → order[slot]? = some member := by
  induction slotOf generalizing unplaced with
  | nil =>
      rw [List.count_nil] at enough
      rw [List.length_eq_zero_iff.mp enough.symm]
      exact ⟨[], rfl, List.Perm.refl _, fun _ _ held => (Option.some_ne_none _ held.symm).elim⟩
  | cons held slotOf ih =>
      cases held with
      | some member =>
          rw [List.count_cons_of_ne (Option.some_ne_none member)] at enough
          obtain ⟨order, filled, members, kept⟩ := ih enough
          refine ⟨member :: order, ?_, members.cons member, fun slot other held => ?_⟩
          · rw [fill, filled, List.map_cons]
          · cases slot with
            | zero => exact congrArg some (Option.some.inj (Option.some.inj held))
            | succ slot => exact kept slot other held
      | none =>
          rw [List.count_cons_self] at enough
          obtain ⟨front, last, rfl⟩ : ∃ front last, unplaced = front ++ [last] := by
            refine List.eq_nil_or_concat' unplaced |>.resolve_left fun empty => ?_
            rw [empty] at enough
            exact Nat.succ_ne_zero _ enough
          rw [List.length_append, List.length_singleton, Nat.add_right_cancel_iff] at enough
          obtain ⟨order, filled, members, kept⟩ := ih enough
          refine ⟨last :: order, ?_, ?_, fun slot other held => ?_⟩
          · rw [fill, List.dropLast_concat, filled, List.getLast?_concat, List.map_cons]
          · rw [← List.append_assoc]
            exact (members.cons last).trans (List.perm_append_singleton _ _).symm
          · cases slot with
            | zero => exact (Option.some_ne_none _ (Option.some.inj held).symm).elim
            | succ slot => exact kept slot other held

/-- Who has no slot and who has one are all. -/
theorem count_none_add (slotOf : List (Option Nat)) :
    slotOf.count none + (slotOf.filterMap id).length = slotOf.length := by
  induction slotOf with
  | nil => rfl
  | cons held slotOf ih =>
      cases held with
      | none =>
          rw [List.count_cons_self, List.length_cons, ← ih]
          exact Nat.add_right_comm _ _ _
      | some member =>
          rw [List.count_cons_of_ne (Option.some_ne_none member), List.length_cons, ← ih]
          rfl

/-- **Repair.** With as many members as slots each slot is taken by one member, and whoever names a
slot first has it. -/
theorem repair_spec (wishes : List (Option Nat)) :
    ∃ order : List Nat, repair wishes.length wishes = order.map some ∧
      order.Perm (List.range wishes.length) ∧
      ∀ slot member : Nat, slot < wishes.length → wishes[member]? = some (some slot) →
        (∀ earlier < member, wishes[earlier]? ≠ some (some slot)) →
        order[slot]? = some member := by
  have placed := placed_foldl wishes.length wishes
  have total := placed.members.length_eq
  have slots := count_none_add (wishes.zipIdx.foldl place (empty wishes.length)).slotOf
  rw [placed.length] at slots
  rw [List.length_append, List.length_range] at total
  have enough : (wishes.zipIdx.foldl place (empty wishes.length)).slotOf.count none =
      (wishes.zipIdx.foldl place (empty wishes.length)).unplaced.length := by omega
  obtain ⟨order, filled, members, kept⟩ := fill_spec enough
  refine ⟨order, filled, members.trans placed.members, fun slot member bound named none => ?_⟩
  exact kept slot member (placed.first slot member bound named none)

/-! ## The way back -/

/-- The slot of each member. -/
def inverse (count : Nat) (order : List Nat) : List Nat :=
  order.zipIdx.foldl (fun table entry => table.set entry.1 entry.2) (List.replicate count 0)

/-- The inverse has a slot for each member. -/
theorem length_inverse (count : Nat) (order : List Nat) :
    (inverse count order).length = count := by
  refine List.foldlRecOn order.zipIdx _ (motive := fun table : List Nat => table.length = count)
    List.length_replicate fun table length entry _ => ?_
  rw [List.length_set]
  exact length

/-- The inverse finds the slot of a member. -/
theorem inverse_spec {count slot member : Nat} {order : List Nat} (once : order.Nodup)
    (bound : member < count) (held : order[slot]? = some member) :
    (inverse count order)[member]? = some slot := by
  induction order using List.reverseRecOn with
  | nil => exact (Option.some_ne_none _ held.symm).elim
  | append_singleton order last ih =>
      have written : inverse count (order ++ [last]) =
          (inverse count order).set last order.length := by
        rw [inverse, List.zipIdx_append, List.foldl_append, Nat.zero_add]
        rfl
      rw [written, List.getElem?_set, length_inverse]
      have apart := List.disjoint_of_nodup_append once
      rw [List.getElem?_append] at held
      split at held
      · next before =>
          have inside := List.mem_of_getElem? held
          rw [if_neg fun same : last = member =>
            apart (same ▸ inside) (List.mem_singleton_self _)]
          exact ih once.of_append_left held
      · next beyond =>
          rw [List.getElem?_singleton] at held
          split at held
          · next final =>
              rw [if_pos (Option.some.inj held), if_pos (Option.some.inj held ▸ bound)]
              exact congrArg some (by omega)
          · exact (Option.some_ne_none _ held.symm).elim

/-- The slots of the members, when each slot has one. -/
theorem exists_perm {count : Nat} {order : List Nat} (members : order.Perm (List.range count)) :
    ∃ slot : Equiv.Perm (Fin count), ∀ member : Fin count,
      order[(slot member).val]? = some member.val := by
  have length : order.length = count := members.length_eq.trans List.length_range
  have once : order.Nodup := members.nodup_iff.mpr List.nodup_range
  let memberAt (slot : Fin count) : Fin count :=
    ⟨order.get (slot.cast length.symm),
      List.mem_range.mp (members.mem_iff.mp (List.getElem_mem _))⟩
  have injective : Function.Injective memberAt := by
    intro first second same
    exact Fin.ext ((once.getElem_inj_iff).mp (congrArg Fin.val same))
  refine ⟨(Equiv.ofBijective memberAt (Finite.injective_iff_bijective.mp injective)).symm,
    fun member => ?_⟩
  have back := (Equiv.ofBijective memberAt
    (Finite.injective_iff_bijective.mp injective)).apply_symm_apply member
  rw [List.getElem?_eq_getElem (by rw [length]; exact Fin.isLt _)]
  exact congrArg some (congrArg Fin.val back)

end Slots

end Foundation
