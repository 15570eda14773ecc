import Mathlib.Data.List.Basic

/-! # Finite runs of a labelled transition relation

A run records the labels taken from one state to another. Safety properties of
every reachable state reduce to one step (`Foundation.Run.invariant`); a
property of the steps themselves is read off a run through the states before
them (`Foundation.Run.append`). Restricting the steps of a system to those that
meet a guard gives a system with fewer runs (`Foundation.Run.mono`).
-/

namespace Foundation

variable {State Label : Type*} {step other : State → Label → State → Prop}

/-- The labels of a finite run, first label first. -/
inductive Run (step : State → Label → State → Prop) : State → List Label → State → Prop where
  | nil (state : State) : Run step state [] state
  | cons {source mid target : State} {label : Label} {labels : List Label} :
      step source label mid → Run step mid labels target →
        Run step source (label :: labels) target

namespace Run

/-- What holds initially and is preserved by every step holds of every state
reached. -/
theorem invariant (inv : State → Prop)
    (preserved : ∀ source label target, inv source → step source label target → inv target)
    {source target : State} {labels : List Label} (run : Run step source labels target)
    (start : inv source) : inv target := by
  induction run with
  | nil state => exact start
  | cons first _ ih => exact ih (preserved _ _ _ start first)

/-- Every step of the smaller system is one of the larger system, so is every run. -/
theorem mono (included : ∀ source label target, step source label target →
      other source label target)
    {source target : State} {labels : List Label} (run : Run step source labels target) :
    Run other source labels target := by
  induction run with
  | nil state => exact .nil state
  | cons first _ ih => exact .cons (included _ _ _ first) ih

/-- A run, seen through a view of its states. -/
theorem map {View : Type*} {seen : View → Label → View → Prop} (view : State → View)
    (included : ∀ source label target, step source label target →
      seen (view source) label (view target))
    {source target : State} {labels : List Label} (run : Run step source labels target) :
    Run seen (view source) labels (view target) := by
  induction run with
  | nil state => exact .nil _
  | cons first _ ih => exact .cons (included _ _ _ first) ih

/-- Runs compose. -/
theorem append {source mid target : State} {first second : List Label}
    (left : Run step source first mid) (right : Run step mid second target) :
    Run step source (first ++ second) target := by
  induction left with
  | nil state => exact right
  | cons head _ ih => exact .cons head (ih right)

end Run

/-- The state after these labels, if the guard allows every one of them. -/
def follow (next : State → Label → Option State) (guard : State → Label → Bool) (state : State) :
    List Label → Option State
  | [] => some state
  | label :: labels =>
      if guard state label then (next state label).bind fun after => follow next guard after labels
      else none

/-- A run that can be computed is a run. -/
theorem run_of_follow {next : State → Label → Option State} {guard : State → Label → Bool}
    {labels : List Label} {source : State} {found : State → Bool}
    (done : (follow next guard source labels).any found) :
    ∃ target, Run (fun state label after => next state label = some after ∧ guard state label)
      source labels target ∧ found target := by
  induction labels generalizing source with
  | nil => exact ⟨source, .nil source, done⟩
  | cons label labels ih =>
      rw [follow] at done
      split at done
      · next allowed =>
          cases here : next source label with
          | none =>
              rw [here] at done
              cases done
          | some mid =>
              rw [here] at done
              obtain ⟨target, rest, there⟩ := ih done
              exact ⟨target, .cons ⟨here, allowed⟩ rest, there⟩
      · cases done

/-- A list enumerates the elements satisfying a predicate, each once, in any order. -/
def Enumerates {α : Type*} (elements : List α) (members : α → Prop) : Prop :=
  elements.Nodup ∧ ∀ element, element ∈ elements ↔ members element

end Foundation
