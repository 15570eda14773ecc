import Mathlib
import LolCrawler.Foundation.Run

/-! # Runs that a potential bounds

Some steps count, and each is paid for by a potential that the states have and by what its label
brings. So no more steps count in a run than the potential at its start and what the labels bring
allow (`Foundation.Run.paid`). And if some step lowers the potential wherever the goal is not
reached, the goal is reached in as many steps as the potential is high (`Foundation.drains`).
-/

namespace Foundation

variable {State Label : Type*} {step : State → Label → State → Prop}

/-- **The potential method**, where such steps are paid for in states with the invariant. -/
theorem Run.paid {counts : Label → Bool} {gain : Label → Nat} {left : State → Nat}
    {inv : State → Prop} {allowed : Label → Prop}
    (pays : ∀ source label target, inv source → step source label target → allowed label →
      inv target ∧ (if counts label then 1 else 0) + left target ≤ left source + gain label)
    {source target : State} {labels : List Label} (run : Run step source labels target)
    (fits : ∀ label ∈ labels, allowed label) (start : inv source) :
    labels.countP counts + left target ≤ left source + (labels.map gain).sum := by
  induction run with
  | nil state => simp
  | cons first _ ih =>
      obtain ⟨held, here⟩ := pays _ _ _ start first (fits _ List.mem_cons_self)
      have rest := ih (fun label later => fits label (List.mem_cons_of_mem _ later)) held
      rw [List.countP_cons, List.map_cons, List.sum_cons]
      omega

/-- Whatever can be brought closer to a goal by such steps is brought there by such steps. -/
theorem drains {left : State → Nat} {inv goal : State → Prop} {allowed : Label → Prop}
    (goes : ∀ source, inv source → ¬ goal source → ∃ label target,
      step source label target ∧ allowed label ∧ inv target ∧ left target < left source)
    {source : State} (start : inv source) :
    ∃ labels target, Run step source labels target ∧ (∀ label ∈ labels, allowed label) ∧
      goal target ∧ labels.length ≤ left source := by
  generalize bound : left source = height
  induction height using Nat.strongRecOn generalizing source with
  | ind height ih =>
      by_cases there : goal source
      · exact ⟨[], source, .nil source, nofun, there, Nat.zero_le _⟩
      · obtain ⟨label, target, first, fits, held, lower⟩ := goes source start there
        obtain ⟨labels, last, run, rest, reached, short⟩ :=
          ih (left target) (bound ▸ lower) held rfl
        refine ⟨label :: labels, last, .cons first run, ?_, reached, ?_⟩
        · exact List.forall_mem_cons.mpr ⟨fits, rest⟩
        · rw [List.length_cons]
          omega

end Foundation
