import Mathlib.Data.List.Nodup

/-! # Tables

A table is a finite list of entries with distinct keys. Its operations are
described by what `get` sees; `count` counts the entries of a kind, and an
insertion changes it by the entry that goes and the entry that comes
(`count_insert`).
-/

namespace Foundation

/-- Entries with distinct keys. -/
structure Table (K V : Type) where
  entries : List (K × V)
  distinct : (entries.map Prod.fst).Nodup

namespace Table

variable {K V : Type}

/-- No entries. -/
def empty : Table K V := ⟨[], List.nodup_nil⟩

variable [DecidableEq K]

/-- The value of a key. -/
def get (table : Table K V) (key : K) : Option V :=
  (table.entries.find? fun entry => entry.1 = key).map Prod.snd

/-- Keys that are filtered are distinct. -/
theorem distinct_filter (table : Table K V) (key : K) :
    ((table.entries.filter fun entry => entry.1 ≠ key).map Prod.fst).Nodup :=
  table.distinct.sublist (List.filter_sublist.map Prod.fst)

/-- The table without a key. -/
def remove (table : Table K V) (key : K) : Table K V :=
  ⟨table.entries.filter fun entry => entry.1 ≠ key, table.distinct_filter key⟩

/-- The table with a value for a key. -/
def insert (table : Table K V) (key : K) (value : V) : Table K V where
  entries := (key, value) :: table.entries.filter fun entry => entry.1 ≠ key
  distinct := by
    rw [List.map_cons, List.nodup_cons]
    refine ⟨?_, table.distinct_filter key⟩
    intro inside
    obtain ⟨entry, kept, same⟩ := List.mem_map.mp inside
    simp [same] at kept

/-- The number of entries of a kind. -/
def count (table : Table K V) (kind : K → V → Bool) : Nat :=
  table.entries.countP fun entry => kind entry.1 entry.2

omit [DecidableEq K] in
/-- A key has one value. -/
theorem eq_of_mem {table : Table K V} {key : K} {first second : V}
    (one : (key, first) ∈ table.entries) (other : (key, second) ∈ table.entries) :
    first = second := by
  have same := List.inj_on_of_nodup_map table.distinct one other rfl
  exact (Prod.mk.inj same).2

/-- A key has a value if and only if the entry is there. -/
theorem get_eq_some {table : Table K V} {key : K} {value : V} :
    table.get key = some value ↔ (key, value) ∈ table.entries := by
  constructor
  · intro found
    obtain ⟨entry, first, rfl⟩ := Option.map_eq_some_iff.mp found
    have key' : entry.1 = key := by simpa using List.find?_some first
    rw [← key']
    exact List.mem_of_find?_eq_some first
  · intro inside
    cases found : table.entries.find? fun entry => entry.1 = key with
    | none => simpa using List.find?_eq_none.mp found _ inside
    | some entry =>
        have key' : entry.1 = key := by simpa using List.find?_some found
        have here : (key, entry.2) ∈ table.entries := by
          rw [← key']
          exact List.mem_of_find?_eq_some found
        rw [get, found, Option.map_some, eq_of_mem inside here]

/-- An empty table has no keys. -/
@[simp] theorem get_empty (key : K) : (empty : Table K V).get key = none := rfl

/-- A key that is removed is gone, and the others stay. -/
theorem get_remove (table : Table K V) (key other : K) :
    (table.remove key).get other = if other = key then none else table.get other := by
  apply Option.ext
  intro value
  rw [get_eq_some, remove, List.mem_filter]
  split
  · next same => simp [same]
  · next different => simp [different, get_eq_some]

/-- A key that is inserted has its value, and the others stay. -/
theorem get_insert (table : Table K V) (key other : K) (value : V) :
    (table.insert key value).get other = if other = key then some value else table.get other := by
  apply Option.ext
  intro found
  rw [get_eq_some, insert, List.mem_cons, List.mem_filter]
  split
  · next same =>
      subst same
      simp [eq_comm]
  · next different => simp [different, get_eq_some]

/-- The key has its value. -/
@[simp] theorem get_insert_self (table : Table K V) (key : K) (value : V) :
    (table.insert key value).get key = some value := by
  rw [get_insert, if_pos rfl]

/-- Other keys have their values. -/
theorem get_insert_of_ne (table : Table K V) {key other : K} (value : V) (different : other ≠ key) :
    (table.insert key value).get other = table.get other := by
  rw [get_insert, if_neg different]

/-- Values that depend on their key only. -/
theorem get_foldl_insert (keys : List K) (value : K → V) (table : Table K V) (key : K) :
    (keys.foldl (fun table key => table.insert key (value key)) table).get key =
      if key ∈ keys then some (value key) else table.get key := by
  induction keys generalizing table with
  | nil => rfl
  | cons first keys ih =>
      rw [List.foldl_cons, ih, get_insert]
      by_cases same : key = first
      · simp [same]
      · simp [same]

/-- Values that are told by their key. -/
theorem get_foldl_entries {entries : List (K × V)} (value : K → Option V)
    (told : ∀ entry ∈ entries, value entry.1 = some entry.2) (table : Table K V) (key : K) :
    (entries.foldl (fun table entry => table.insert entry.1 entry.2) table).get key =
      if key ∈ entries.map Prod.fst then value key else table.get key := by
  induction entries generalizing table with
  | nil => rfl
  | cons first entries ih =>
      rw [List.forall_mem_cons] at told
      rw [List.foldl_cons, ih told.2, get_insert, List.map_cons]
      by_cases same : key = first.1
      · rw [same, told.1]
        simp
      · simp only [List.mem_cons, same, false_or, ↓reduceIte]

/-- The entries with these keys. -/
def restrict (table : Table K V) (keys : K → Bool) : Table K V where
  entries := table.entries.filter fun entry => keys entry.1
  distinct := table.distinct.sublist (List.filter_sublist.map Prod.fst)

/-- A table that is restricted has the keys that are kept. -/
theorem get_restrict (table : Table K V) (keys : K → Bool) (key : K) :
    (table.restrict keys).get key = if keys key then table.get key else none := by
  apply Option.ext
  intro value
  rw [get_eq_some, restrict, List.mem_filter]
  split
  · next kept => simp [kept, get_eq_some]
  · next gone => simp [gone]

/-- The table with other values. -/
def map {W : Type} (table : Table K V) (f : V → W) : Table K W where
  entries := table.entries.map fun entry => (entry.1, f entry.2)
  distinct := by
    rw [List.map_map]
    exact table.distinct

/-- Values are mapped under their keys. -/
theorem get_map {W : Type} (table : Table K V) (f : V → W) (key : K) :
    (table.map f).get key = (table.get key).map f := by
  apply Option.ext
  intro value
  rw [get_eq_some, map, List.mem_map, Option.map_eq_some_iff]
  constructor
  · rintro ⟨⟨other, old⟩, inside, same⟩
    obtain ⟨rfl, rfl⟩ := Prod.mk.inj same
    exact ⟨old, get_eq_some.mpr inside, rfl⟩
  · rintro ⟨old, found, rfl⟩
    exact ⟨(key, old), get_eq_some.mp found, rfl⟩

/-- A key has at most one entry. -/
theorem filter_key {entries : List (K × V)} {key : K} {value : V}
    (distinct : (entries.map Prod.fst).Nodup) (inside : (key, value) ∈ entries) :
    entries.filter (fun entry => entry.1 = key) = [(key, value)] := by
  induction entries with
  | nil => simp at inside
  | cons entry entries ih =>
      rw [List.map_cons, List.nodup_cons] at distinct
      rcases List.mem_cons.mp inside with rfl | later
      · have none : entries.filter (fun entry => entry.1 = key) = [] := by
          rw [List.filter_eq_nil_iff]
          intro other there same
          exact distinct.1 (List.mem_map.mpr ⟨other, there, by simpa using same⟩)
        rw [List.filter_cons_of_pos (by simp), none]
      · have different : entry.1 ≠ key := by
          intro same
          exact distinct.1 (List.mem_map.mpr ⟨_, later, same.symm⟩)
        rw [List.filter_cons_of_neg (by simpa using different), ih distinct.2 later]

/-- The old entry leaves the count, the new one enters it. -/
theorem count_insert (table : Table K V) (kind : K → V → Bool) (key : K) (value : V) :
    (table.insert key value).count kind + ((table.get key).elim 0 fun old => (kind key old).toNat) =
      table.count kind + (kind key value).toNat := by
  have split := List.countP_eq_countP_filter_add table.entries (fun entry => kind entry.1 entry.2)
    fun entry => entry.1 = key
  have here : (table.entries.filter fun entry => entry.1 = key).countP
      (fun entry => kind entry.1 entry.2) =
        (table.get key).elim 0 fun old => (kind key old).toNat := by
    cases found : table.get key with
    | none =>
        have none : table.entries.filter (fun entry => entry.1 = key) = [] := by
          rw [List.filter_eq_nil_iff]
          rintro ⟨other, old⟩ inside same
          simp only [decide_eq_true_eq] at same
          rw [← same] at found
          rw [get_eq_some.mpr inside] at found
          cases found
        rw [none]
        rfl
    | some old =>
        rw [filter_key table.distinct (get_eq_some.mp found), Option.elim_some]
        cases same : kind key old <;> simp [same]
  have kept : (table.entries.filter fun entry => !decide (entry.1 = key)) =
      table.entries.filter fun entry => entry.1 ≠ key := by simp
  rw [here, kept] at split
  rw [count, count, split, insert, List.countP_cons]
  cases kind key value <;> simp <;> omega

/-- Tables that look the same count the same. -/
theorem count_congr {first second : Table K V} (same : ∀ key, first.get key = second.get key)
    (kind : K → V → Bool) : first.count kind = second.count kind := by
  have perm : first.entries.Perm second.entries := by
    rw [List.perm_ext_iff_of_nodup (first.distinct.of_map _) (second.distinct.of_map _)]
    rintro ⟨key, value⟩
    rw [← get_eq_some, ← get_eq_some, same]
  exact perm.countP_eq _

end Table

end Foundation
