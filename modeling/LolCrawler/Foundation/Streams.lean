import Mathlib.Logic.Function.Basic

/-! # Interleaved streams

A family of sequences, one per key, to which a writer appends in any order and
from which a reader takes in any order. Writing is concatenation key by key, so
parts written under different keys commute. `Foundation.Parses` says that an
action takes one part off the front of the streams and returns a value;
sequencing actions concatenates their parts.
-/

namespace Foundation

/-- One sequence per key. -/
def Streams (Key Item : Type) : Type := Key → List Item

namespace Streams

variable {Key Item : Type}

def empty : Streams Key Item := fun _ => []

instance : Append (Streams Key Item) := ⟨fun first second key => first key ++ second key⟩

/-- Items under one key. -/
def single [DecidableEq Key] (key : Key) (items : List Item) : Streams Key Item :=
  fun other => if other = key then items else []

@[simp] theorem empty_apply (key : Key) : (empty : Streams Key Item) key = [] := rfl

@[simp] theorem append_apply (first second : Streams Key Item) (key : Key) :
    (first ++ second) key = first key ++ second key := rfl

@[simp] theorem single_apply [DecidableEq Key] (key other : Key) (items : List Item) :
    single key items other = if other = key then items else [] := rfl

/-- Streams are appended in any grouping. -/
theorem append_assoc (first second third : Streams Key Item) :
    first ++ second ++ third = first ++ (second ++ third) :=
  funext fun key => List.append_assoc (first key) (second key) (third key)

@[simp] theorem empty_append (streams : Streams Key Item) : empty ++ streams = streams := rfl

@[simp] theorem append_empty (streams : Streams Key Item) : streams ++ empty = streams :=
  funext fun key => List.append_nil (streams key)

/-- Parts under different keys commute. -/
theorem append_comm {first second : Streams Key Item}
    (disjoint : ∀ key, first key = [] ∨ second key = []) : first ++ second = second ++ first := by
  funext key
  rcases disjoint key with none | none <;> simp only [append_apply, none, List.nil_append,
    List.append_nil]

/-- The parts one after the other. -/
def concat : List (Streams Key Item) → Streams Key Item
  | [] => empty
  | part :: parts => part ++ concat parts

@[simp] theorem concat_nil : concat ([] : List (Streams Key Item)) = empty := rfl

@[simp] theorem concat_cons (part : Streams Key Item) (parts : List (Streams Key Item)) :
    concat (part :: parts) = part ++ concat parts := rfl

/-- Parts that avoid a key leave its stream empty. -/
theorem concat_eq_nil {parts : List (Streams Key Item)} {key : Key}
    (avoid : ∀ part ∈ parts, part key = []) : concat parts key = [] := by
  induction parts with
  | nil => rfl
  | cons part parts ih =>
      rw [concat_cons, append_apply, avoid part List.mem_cons_self,
        ih fun other member => avoid other (List.mem_cons_of_mem _ member)]
      rfl

end Streams

section Parses

variable {State Key Item Failure α β : Type} (holds : State → Streams Key Item → Prop)

/-- From any state that holds the part and more, the action returns the value and
leaves the rest. -/
def Parses (action : StateT State (Except Failure) α) (part : Streams Key Item) (value : α) :
    Prop :=
  ∀ state rest, holds state (part ++ rest) →
    ∃ next, action state = .ok (value, next) ∧ holds next rest

variable {holds}

namespace Parses

/-- A value parses nothing. -/
theorem pure (value : α) :
    Parses holds (Pure.pure value : StateT State (Except Failure) α) .empty value :=
  fun state _ held => ⟨state, rfl, held⟩

/-- Parts of a sequence of actions are concatenated. -/
theorem bind {action : StateT State (Except Failure) α}
    {next : α → StateT State (Except Failure) β} {first second : Streams Key Item} {value : α}
    {result : β} (left : Parses holds action first value)
    (right : Parses holds (next value) second result) :
    Parses holds (action >>= next) (first ++ second) result := by
  intro state rest held
  rw [Streams.append_assoc] at held
  obtain ⟨mid, done, held⟩ := left state _ held
  obtain ⟨last, finished, held⟩ := right mid rest held
  refine ⟨last, ?_, held⟩
  change (action state).bind _ = _
  rw [done]
  exact finished

/-- What an action parses may be written in any equal way. -/
theorem of_eq {action : StateT State (Except Failure) α} {part other : Streams Key Item} {value : α}
    (parses : Parses holds action part value) (same : part = other) :
    Parses holds action other value :=
  same ▸ parses

/-- A lifted result parses the empty part. -/
theorem lift {result : Except Failure α} {value : α} (success : result = .ok value) :
    Parses holds (liftM result : StateT State (Except Failure) α) .empty value := by
  subst success
  exact fun state _ held => ⟨state, rfl, held⟩

/-- A step that reads nothing before the rest. -/
theorem lift_bind {result : Except Failure α} {value : α}
    {next : α → StateT State (Except Failure) β} {part : Streams Key Item} {output : β}
    (success : result = .ok value) (right : Parses holds (next value) part output) :
    Parses holds (liftM result >>= next) part output :=
  (lift success).bind right

/-- A check on the value that was read. -/
theorem checked {action : StateT State (Except Failure) α} {part : Streams Key Item} {value : α}
    {check : α → Except Failure β} {output : β} (parses : Parses holds action part value)
    (success : check value = .ok output) :
    Parses holds (action >>= fun result => liftM (check result)) part output := by
  have both : Parses holds (action >>= fun result => liftM (check result)) (part ++ .empty)
      output := parses.bind (lift success)
  rwa [Streams.append_empty] at both

/-- Shape the value of a check on the value that was read. -/
theorem checked_map {γ : Type} {action : StateT State (Except Failure) α}
    {part : Streams Key Item} {value : α} {check : α → Except Failure β} {output : β}
    (parses : Parses holds action part value) (success : check value = .ok output)
    (shape : β → γ) :
    Parses holds (action >>= fun result => liftM (check result) >>= fun checked =>
      Pure.pure (shape checked)) part (shape output) := by
  have both : Parses holds (action >>= fun result => liftM (check result) >>= fun checked =>
      Pure.pure (shape checked)) (part ++ .empty) (shape output) :=
    parses.bind (lift_bind success (pure (shape output)))
  rwa [Streams.append_empty] at both

/-- Shape the value of an action. -/
theorem map {action : StateT State (Except Failure) α} {part : Streams Key Item} {value : α}
    (shape : α → β) (parses : Parses holds action part value) :
    Parses holds (action >>= fun result => Pure.pure (shape result)) part (shape value) := by
  have both : Parses holds (action >>= fun result => Pure.pure (shape result)) (part ++ .empty)
      (shape value) := parses.bind (pure (shape value))
  rwa [Streams.append_empty] at both

end Parses

end Parses

end Foundation
