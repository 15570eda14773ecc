import LolCrawler.Node.Adopted

/-! # Nobody waits in vain

A loop that is refused sleeps until the gate that refused it is open. Nothing closes an open
gate but a send of another loop, a cooldown, or new windows. So a loop that is left alone passes
the cooldown, the pacer and the windows one after the other, and is refused three times at most;
and in any run its iterations are paid for by the sends, cooldowns and new windows.
-/

namespace LolCrawler.Node

open Foundation

/-- An iteration of this loop. -/
def Adopting.Event.turnOf (loop : Nat) : Adopting.Event → Bool
  | .iterate other _ _ => other = loop
  | _ => false

/-- What can close a gate, besides a send. -/
def Adopting.Event.disturbs : Adopting.Event → Bool
  | .iterate .. => false
  | .cooldown .. | .updateSpecs _ => true

/-- The first of the three gates (the cooldown, the pacer and the windows) are open from this
time on. -/
structure Opened (pace : Bool) (gates wake : Nat) (w : Windows) : Prop where
  cooldown : 1 ≤ gates → gateWait wake w.cooldownUntil = none
  pacer : 2 ≤ gates → pace = true → gateWait wake w.nextSlot = none
  windows : 3 ≤ gates → ∀ spec ∈ w.specs, ∀ time, wake ≤ time →
    within spec.win time w.sent < spec.limit

/-- How many gates are known to be open when the loop goes on. -/
def Cleared (pace : Bool) (gates : Nat) (w : Windows) : Loop → Prop
  | .started => gates = 0
  | .sleeping wake => Opened pace gates wake w
  | .returned => True

/-- A gate that is open stays open. -/
theorem gateWait_later {now later : Nat} {gate : Option Nat} (open' : gateWait now gate = none)
    (ahead : now ≤ later) : gateWait later gate = none := by
  rw [gateWait_eq_none] at open' ⊢
  exact fun opens held => Nat.le_trans (open' opens held) ahead

/-- Whoever sleeps through the wait finds the gate open. -/
theorem gateWait_slept {now d wake : Nat} {gate : Option Nat} (closed : gateWait now gate = some d)
    (slept : now + d ≤ wake) : gateWait wake gate = none := by
  rw [gateWait_eq_none]
  intro opens held
  rw [gateWait, held, Option.bind_some] at closed
  split at closed
  · cases closed
    omega
  · cases closed

/-- Windows that all have room refuse nobody. -/
theorem windowWaits_room {now : Nat} {sent : List Nat} {specs : List WindowSpec}
    (room : ∀ spec ∈ specs, inWindow now sent spec < spec.limit) (wait : Option Nat) :
    specs.foldlM (windowWait now sent) wait = some wait := by
  induction specs with
  | nil => rfl
  | cons spec specs ih =>
      have first := room spec List.mem_cons_self
      have passed : windowWait now sent wait spec = some wait := by
        rw [windowWait, if_neg (by omega)]
      rw [List.foldlM_cons, passed]
      exact ih fun other inside => room other (List.mem_cons_of_mem _ inside)

namespace Opened

variable {pace : Bool} {gates wake now : Nat} {w : Windows}

/-- No gate needs to be opened. -/
theorem zero (wake : Nat) (w : Windows) : Opened pace 0 wake w :=
  ⟨fun none => absurd none (by omega), fun none => absurd none (by omega),
    fun none => absurd none (by omega)⟩

/-- Iterations of other loops that send nothing close no gate. -/
theorem pruned (opened : Opened pace gates wake w) {cooldownUntil : Option Nat} {sent : List Nat}
    (cooldown : cooldownUntil = none ∨ cooldownUntil = w.cooldownUntil)
    (fewer : sent.Sublist w.sent) :
    Opened pace gates wake { w with cooldownUntil := cooldownUntil, sent := sent } where
  cooldown known := by
    rcases cooldown with rfl | rfl
    · rfl
    · exact opened.cooldown known
  pacer := opened.pacer
  windows known spec among time later :=
    Nat.lt_of_le_of_lt (fewer.countP_le) (opened.windows known spec among time later)

/-- At the windows, with two gates behind. -/
theorem gates_open (opened : Opened pace gates wake w) (known : 2 ≤ gates) (ahead : wake ≤ now) :
    OpenGates pace now w :=
  ⟨gateWait_later (opened.cooldown (by omega)) ahead,
    fun on => gateWait_later (opened.pacer known on) ahead⟩

end Opened

/-- **A refusal.** Fewer gates were known to be open than are now. -/
theorem refused_opens {pace : Bool} {gates wake now gapMs d : Nat} {w windows : Windows}
    (opened : Opened pace gates wake w) (ahead : wake ≤ now)
    (ordered : w.sent.Pairwise (· ≤ ·)) (past : ∀ time ∈ w.sent, time ≤ now)
    (refused : acquireOnce pace now gapMs w = some (some d, windows)) :
    ∃ more, gates < more ∧ more ≤ 3 ∧ Opened pace more (now + d + fromMillis 5) windows := by
  cases gate : gateWait now w.cooldownUntil with
  | some left =>
      rw [acquireOnce_cooling gate] at refused
      cases refused
      have none : gates = 0 := by
        by_contra some
        rw [gateWait_later (opened.cooldown (by omega)) ahead] at gate
        cases gate
      refine ⟨1, by omega, by omega, fun _ => gateWait_slept gate (by omega), ?_, ?_⟩
      · exact fun more => absurd more (by omega)
      · exact fun more => absurd more (by omega)
  | none =>
      by_cases open' : OpenGates pace now w
      · cases pass : w.specs.foldlM (windowWait now (prune now w)) none with
        | none =>
            rw [acquireOnce_failed open' pass] at refused
            cases refused
        | some wait =>
            cases wait with
            | none =>
                rw [acquireOnce_sent open' pass] at refused
                cases refused
            | some left =>
                have fewer : (prune now w).Sublist w.sent := List.dropWhile_sublist _
                have kept : ∀ time ∈ prune now w, time ≤ now :=
                  fun time inside => past time (fewer.subset inside)
                have inOrder := ordered.sublist fewer
                rw [acquireOnce_refused open' pass] at refused
                cases refused
                have few : gates < 3 := by
                  by_contra all
                  have room : ∀ spec ∈ w.specs, inWindow now (prune now w) spec < spec.limit := by
                    intro spec among
                    rw [inWindow, within_newest inOrder kept]
                    exact Nat.lt_of_le_of_lt fewer.countP_le
                      (opened.windows (by omega) spec among now ahead)
                  rw [windowWaits_room room] at pass
                  cases pass
                have positive : ∀ spec ∈ w.specs, 1 ≤ spec.limit := by
                  by_contra bad
                  push Not at bad
                  obtain ⟨spec, among, zero⟩ := bad
                  rw [Enforced.windowWaits_zero among (by omega) none] at pass
                  cases pass
                obtain ⟨wait, waits, room⟩ := windowWaits_spec positive inOrder kept none
                rw [pass] at waits
                cases waits
                refine ⟨3, few, by omega, fun _ => rfl,
                  fun _ on => gateWait_later (open'.2 on) (by omega),
                  fun _ spec among time later => ?_⟩
                have enough := ((room d).mp (Nat.le_refl _)).2 spec among
                have later' : now + d ≤ time := by omega
                exact Nat.lt_of_le_of_lt (within_later
                  (fun time inside => Nat.le_trans (kept time inside) (by omega)) later') enough
      · have few : gates < 2 := by
          by_contra both
          exact open' (opened.gates_open (by omega) ahead)
        cases pace with
        | false => exact (open' ⟨gate, nofun⟩).elim
        | true =>
            cases slot : gateWait now w.nextSlot with
            | none => exact (open' ⟨gate, fun _ => slot⟩).elim
            | some left =>
                simp only [acquireOnce, gate, slot, ↓reduceIte, Option.some.injEq,
                  Prod.mk.injEq] at refused
                obtain ⟨rfl, rfl⟩ := refused
                refine ⟨2, few, by omega, fun _ => rfl,
                  fun _ _ => gateWait_slept slot (by omega), ?_⟩
                exact fun more => absurd more (by omega)

/-- A refused iteration changes nothing but the cooldown and the sends that it remembers. -/
theorem refused_frame {pace : Bool} {now gapMs d : Nat} {w windows : Windows}
    (refused : acquireOnce pace now gapMs w = some (some d, windows)) :
    ∃ cooldownUntil sent, windows = { w with cooldownUntil := cooldownUntil, sent := sent } ∧
      (cooldownUntil = none ∨ cooldownUntil = w.cooldownUntil) ∧ sent.Sublist w.sent := by
  cases gate : gateWait now w.cooldownUntil with
  | some left =>
      rw [acquireOnce_cooling gate] at refused
      cases refused
      exact ⟨_, _, rfl, .inr rfl, List.Sublist.refl _⟩
  | none =>
      by_cases open' : OpenGates pace now w
      · cases pass : w.specs.foldlM (windowWait now (prune now w)) none with
        | none =>
            rw [acquireOnce_failed open' pass] at refused
            cases refused
        | some wait =>
            cases wait with
            | none =>
                rw [acquireOnce_sent open' pass] at refused
                cases refused
            | some left =>
                rw [acquireOnce_refused open' pass] at refused
                cases refused
                exact ⟨_, _, rfl, .inl rfl, List.dropWhile_sublist _⟩
      · obtain ⟨left, paced⟩ := acquireOnce_paced gapMs gate open'
        rw [paced] at refused
        cases refused
        exact ⟨_, _, rfl, .inl rfl, List.Sublist.refl _⟩

/-! ## What the iterations are paid for by -/

/-- The turns of a loop are paid for by the sends and the disturbances, three for each, and by the
gates that are known to be open. -/
def Paid (pace : Bool) (loop turns disturbances : Nat) (state : Adopting) : Prop :=
  ∃ gates, gates ≤ 3 ∧ turns ≤ 3 * (state.limiter.grants.length + disturbances) + gates ∧
    Cleared pace gates state.limiter.windows (state.limiter.loops loop)

section Paid

variable {pace : Bool} {loop turns disturbances gates : Nat} {state next : Adopting}

/-- After a disturbance no gate is known to be open. -/
theorem Cleared.forget {w : Windows} {where' : Loop} (cleared : Cleared pace gates w where')
    (after : Windows) : Cleared pace 0 after where' := by
  cases where' with
  | started => rfl
  | sleeping wake => exact .zero wake after
  | returned => trivial

/-- What another loop's refused iteration forgets leaves a cleared loop cleared. -/
theorem Cleared.pruned {w : Windows} {where' : Loop} (cleared : Cleared pace gates w where')
    {cooldownUntil : Option Nat} {sent : List Nat}
    (cooldown : cooldownUntil = none ∨ cooldownUntil = w.cooldownUntil)
    (fewer : sent.Sublist w.sent) :
    Cleared pace gates { w with cooldownUntil := cooldownUntil, sent := sent } where' := by
  cases where' with
  | started => exact cleared
  | sleeping wake => exact Opened.pruned cleared cooldown fewer
  | returned => trivial

/-- A loop that goes on knows some gates to be open. -/
theorem Cleared.ready {w : Windows} {where' : Loop} {now : Nat}
    (cleared : Cleared pace gates w where') (ready : where'.ready now = true) :
    ∃ wake, wake ≤ now ∧ Opened pace gates wake w := by
  cases where' with
  | started =>
      rw [show gates = 0 from cleared]
      exact ⟨now, Nat.le_refl _, .zero now w⟩
  | sleeping wake => exact ⟨wake, of_decide_eq_true ready, cleared⟩
  | returned => cases ready

/-- **Each step** keeps the turns of the loop paid for. -/
theorem Paid.step {event : Adopting.Event} (paid : Paid pace loop turns disturbances state)
    (traced : Traced state) (step : AdoptingStep pace state event next) :
    Paid pace loop (turns + if event.turnOf loop then 1 else 0)
      (disturbances + if event.disturbs then 1 else 0) next := by
  obtain ⟨gates, few, enough, cleared⟩ := paid
  cases event with
  | iterate other now gapMs =>
      obtain ⟨ahead, ready, wait, windows, done, rfl⟩ := step
      have past : ∀ time ∈ state.limiter.windows.sent, time ≤ now := fun time inside =>
        Nat.le_trans (traced.past time inside) ahead
      simp only [Adopting.Event.turnOf, Adopting.Event.disturbs, Bool.false_eq_true, ↓reduceIte,
        Nat.add_zero, decide_eq_true_eq]
      cases wait with
      | none =>
          have more : (state.limiter.iterated other now windows none).grants.length =
              state.limiter.grants.length + 1 := List.length_append
          by_cases own : other = loop
          · subst own
            refine ⟨1, by omega, ?_, ?_⟩
            · rw [more, if_pos rfl]
              omega
            · simp only [Limiter.iterated, Function.update_self]
              trivial
          · refine ⟨0, by omega, ?_, ?_⟩
            · rw [more, if_neg own]
              omega
            · simp only [Limiter.iterated, Function.update_of_ne (Ne.symm own)]
              exact cleared.forget windows
      | some d =>
          by_cases own : other = loop
          · subst own
            obtain ⟨wake, slept, opened⟩ := cleared.ready ready
            obtain ⟨more, above, few', opened'⟩ :=
              refused_opens opened slept traced.ordered past done
            refine ⟨more, few', ?_, ?_⟩
            · rw [if_pos rfl]
              simp only [Limiter.iterated]
              omega
            · simp only [Limiter.iterated, Function.update_self]
              exact opened'
          · obtain ⟨cooldownUntil, sent, rfl, cooldown, fewer⟩ := refused_frame done
            refine ⟨gates, few, ?_, ?_⟩
            · rw [if_neg own]
              exact enough
            · simp only [Limiter.iterated, Function.update_of_ne (Ne.symm own)]
              exact cleared.pruned cooldown fewer
  | cooldown now secs =>
      obtain ⟨⟨-, same⟩, -⟩ := step
      simp only [Adopting.Event.turnOf, Adopting.Event.disturbs, Bool.false_eq_true, ↓reduceIte,
        Nat.add_zero]
      refine ⟨0, by omega, ?_, ?_⟩
      · rw [same]
        simp only
        omega
      · rw [same]
        exact cleared.forget _
  | updateSpecs specs =>
      obtain rfl := step
      simp only [Adopting.Event.turnOf, Adopting.Event.disturbs, Bool.false_eq_true, ↓reduceIte,
        Nat.add_zero]
      refine ⟨0, by omega, ?_, cleared.forget _⟩
      simp only
      omega

/-- A run pays for its turns. -/
theorem Paid.run {events : List Adopting.Event} (run : Run (AdoptingStep pace) state events next)
    (paid : Paid pace loop turns disturbances state) (traced : Traced state) :
    Paid pace loop (turns + events.countP (Adopting.Event.turnOf loop))
      (disturbances + events.countP Adopting.Event.disturbs) next := by
  induction run generalizing turns disturbances with
  | nil state => exact paid
  | cons step run ih =>
      have rest := ih (paid.step traced step) (traced.step step)
      rw [List.countP_cons, List.countP_cons, Nat.add_comm _ (ite _ _ _),
        Nat.add_comm _ (ite _ _ _), ← Nat.add_assoc, ← Nat.add_assoc]
      exact rest

end Paid

/-! ## A loop that is left alone -/

section Alone

variable {pace : Bool} {loop gates : Nat} {state : Adopting}

/-- An iteration sends or says how long to wait, if no window is for no request at all. -/
theorem acquireOnce_returns {now : Nat} {w : Windows} (pace : Bool) (gapMs : Nat)
    (positive : ∀ spec ∈ w.specs, 1 ≤ spec.limit) (ordered : w.sent.Pairwise (· ≤ ·))
    (past : ∀ time ∈ w.sent, time ≤ now) :
    ∃ wait windows, acquireOnce pace now gapMs w = some (wait, windows) := by
  cases gate : gateWait now w.cooldownUntil with
  | some left => exact ⟨_, _, acquireOnce_cooling gate⟩
  | none =>
      by_cases open' : OpenGates pace now w
      · have fewer : (prune now w).Sublist w.sent := List.dropWhile_sublist _
        obtain ⟨wait, pass, -⟩ := windowWaits_spec positive (ordered.sublist fewer)
          (fun time inside => past time (fewer.subset inside)) none
        cases wait with
        | none => exact ⟨_, _, acquireOnce_sent open' pass⟩
        | some left => exact ⟨_, _, acquireOnce_refused open' pass⟩
      · obtain ⟨left, paced⟩ := acquireOnce_paced gapMs gate open'
        exact ⟨_, _, paced⟩

/-- A loop that is granted makes no further iteration. -/
theorem returned_rests {events : List Adopting.Event} {last : Adopting}
    (run : Run (AdoptingStep pace) state events last)
    (alone : ∀ event ∈ events, event.turnOf loop = true)
    (returned : state.limiter.loops loop = .returned) : events = [] := by
  cases run with
  | nil => rfl
  | @cons _ _ _ event _ step _ =>
      have own := alone event List.mem_cons_self
      cases event with
      | iterate other now gapMs =>
          obtain ⟨-, ready, -⟩ := step
          rw [of_decide_eq_true own, returned] at ready
          cases ready
      | cooldown now secs => cases own
      | updateSpecs specs => cases own

/-- The loop is refused at most once for each gate that is not known to be open. -/
theorem Cleared.alone {events : List Adopting.Event} {last : Adopting}
    (run : Run (AdoptingStep pace) state events last)
    (alone : ∀ event ∈ events, event.turnOf loop = true) (traced : Traced state)
    (cleared : Cleared pace gates state.limiter.windows (state.limiter.loops loop))
    (few : gates ≤ 3) : gates + events.length ≤ 4 := by
  induction run generalizing gates with
  | nil state => exact Nat.le_succ_of_le few
  | @cons state next last event events step run ih =>
      have own := alone event List.mem_cons_self
      have later : ∀ event ∈ events, event.turnOf loop = true :=
        fun other inside => alone other (List.mem_cons_of_mem _ inside)
      have after := traced.step step
      rw [List.length_cons]
      cases event with
      | cooldown now secs => cases own
      | updateSpecs specs => cases own
      | iterate other now gapMs =>
          obtain rfl : other = loop := of_decide_eq_true own
          obtain ⟨ahead, ready, wait, windows, done, rfl⟩ := step
          have past : ∀ time ∈ state.limiter.windows.sent, time ≤ now :=
            fun time inside => Nat.le_trans (traced.past time inside) ahead
          cases wait with
          | none =>
              have rests := returned_rests run later (Function.update_self _ _ _)
              rw [rests, List.length_nil]
              omega
          | some d =>
              obtain ⟨wake, slept, opened⟩ := cleared.ready ready
              obtain ⟨more, above, few', opened'⟩ :=
                refused_opens opened slept traced.ordered past done
              have sleeping : (state.limiter.iterated other now windows (some d)).loops other =
                  .sleeping (now + d + fromMillis 5) := Function.update_self _ _ _
              have rest := ih later after (by rw [sleeping]; exact opened') few'
              omega

/-- A loop that waits can go on. -/
theorem Traced.goes_on (traced : Traced state)
    (positive : ∀ spec ∈ state.limiter.windows.specs, 1 ≤ spec.limit)
    (waiting : state.limiter.loops loop ≠ .returned) :
    ∃ event next, event.turnOf loop = true ∧ AdoptingStep pace state event next := by
  obtain ⟨now, ahead, ready⟩ : ∃ now, state.limiter.clock ≤ now ∧
      (state.limiter.loops loop).ready now = true := by
    cases here : state.limiter.loops loop with
    | started => exact ⟨_, Nat.le_refl _, rfl⟩
    | sleeping wake =>
        exact ⟨max state.limiter.clock wake, Nat.le_max_left _ _,
          decide_eq_true (Nat.le_max_right _ _)⟩
    | returned => exact (waiting here).elim
  have past : ∀ time ∈ state.limiter.windows.sent, time ≤ now :=
    fun time inside => Nat.le_trans (traced.past time inside) ahead
  obtain ⟨wait, windows, done⟩ := acquireOnce_returns pace 0 positive traced.ordered past
  exact ⟨.iterate loop now 0, _, decide_eq_true rfl, ahead, ready, wait, windows, done, rfl⟩

/-- Iterations leave the windows as they are. -/
theorem acquireOnce_specs {now gapMs : Nat} {wait : Option Nat} {w windows : Windows}
    (done : acquireOnce pace now gapMs w = some (wait, windows)) : windows.specs = w.specs := by
  cases wait with
  | some d =>
      obtain ⟨cooldownUntil, sent, rfl, -, -⟩ := refused_frame done
      rfl
  | none =>
      cases gate : gateWait now w.cooldownUntil with
      | some left =>
          rw [acquireOnce_cooling gate] at done
          cases done
      | none =>
          by_cases open' : OpenGates pace now w
          · cases pass : w.specs.foldlM (windowWait now (prune now w)) none with
            | none =>
                rw [acquireOnce_failed open' pass] at done
                cases done
            | some wait =>
                cases wait with
                | none =>
                    rw [acquireOnce_sent open' pass] at done
                    cases done
                    rfl
                | some left =>
                    rw [acquireOnce_refused open' pass] at done
                    cases done
          · obtain ⟨left, paced⟩ := acquireOnce_paced gapMs gate open'
            rw [paced] at done
            cases done

/-- Alone, a loop leaves the windows as they are. -/
theorem alone_specs {events : List Adopting.Event} {last : Adopting}
    (run : Run (AdoptingStep pace) state events last)
    (alone : ∀ event ∈ events, event.turnOf loop = true) :
    last.limiter.windows.specs = state.limiter.windows.specs := by
  induction run with
  | nil state => rfl
  | @cons state next last event events step run ih =>
      have own := alone event List.mem_cons_self
      rw [ih fun other inside => alone other (List.mem_cons_of_mem _ inside)]
      cases event with
      | cooldown now secs => cases own
      | updateSpecs specs => cases own
      | iterate other now gapMs =>
          obtain ⟨-, -, wait, windows, done, rfl⟩ := step
          cases wait with
          | none => exact acquireOnce_specs done
          | some d => exact acquireOnce_specs done

end Alone

/-- Nothing need be known of the gates. -/
theorem Cleared.unknown (pace : Bool) (w : Windows) (where' : Loop) :
    Cleared pace 0 w where' := by
  cases where' with
  | started => rfl
  | sleeping wake => exact .zero wake w
  | returned => trivial

/-- **Nobody waits in vain.** From every state that a run reaches, and in every run onwards, a loop
makes at most three iterations for each request that is sent, each cooldown and each change of the
windows, and three more: between the first and the fourth refusal of a loop there is one of these.
A loop that is left alone makes four iterations at most, and where no window has the limit 0 it can
go on until it is granted. -/
theorem acquire_turns (pace : Bool) {specs : List WindowSpec}
    {before events : List Adopting.Event} {state next : Adopting}
    (reached : Run (AdoptingStep pace) (.new specs) before state)
    (run : Run (AdoptingStep pace) state events next) (loop : Nat) :
    events.countP (Adopting.Event.turnOf loop) + 3 * state.limiter.grants.length ≤
        3 * (next.limiter.grants.length + events.countP Adopting.Event.disturbs + 1) ∧
      ∀ alone last, Run (AdoptingStep pace) next alone last →
        (∀ event ∈ alone, event.turnOf loop = true) →
          alone.length ≤ 4 ∧
            ((∀ spec ∈ next.limiter.windows.specs, 1 ≤ spec.limit) →
              last.limiter.loops loop ≠ .returned →
                ∃ event later, event.turnOf loop = true ∧ AdoptingStep pace last event later) := by
  have traced : Traced state :=
    reached.invariant Traced (fun _ _ _ held step => held.step step) (.new specs)
  have traced' : Traced next :=
    run.invariant Traced (fun _ _ _ held step => held.step step) traced
  constructor
  · have start : Paid pace loop (3 * state.limiter.grants.length) 0 state :=
      ⟨0, by omega, by omega, .unknown pace _ _⟩
    obtain ⟨gates, few, enough, -⟩ := start.run run traced
    omega
  · intro alone last onwards own
    have short := (Cleared.unknown pace _ _).alone onwards own traced' (by omega)
    refine ⟨by omega, fun positive waiting => ?_⟩
    have traced'' : Traced last :=
      onwards.invariant Traced (fun _ _ _ held step => held.step step) traced'
    rw [← alone_specs onwards own] at positive
    exact traced''.goes_on positive waiting

/-! ## Three refusals -/

/-- A limiter with a request sent at time 0, the next slot 2 s later, and a window of 10 s that
has room for one. -/
def crowded (cooldowns : List Nat) (cooldownUntil : Option Nat) (clock : Nat)
    (loops : Nat → Loop) (passes : List Deed) : Adopting where
  limiter :=
    { windows := ⟨[⟨1, 10000⟩], [0], cooldownUntil, some 2000000000⟩
      sentTotal := 1
      loops := loops
      clock := clock
      grants := [0]
      cooldowns := cooldowns }
  deeds := .passed 0 [⟨1, 10000⟩] :: .sent 0 :: passes

def served : Nat → Loop := Function.update (fun _ => .started) 0 .returned

/-- The crowded state is reached. -/
theorem crowded_reached : Run (AdoptingStep true) (.new [⟨1, 10000⟩])
    [.iterate 0 0 2000, .cooldown 0 1] (crowded [1000000000] (some 1000000000) 0 served []) := by
  have sent : AdoptingStep true (.new [⟨1, 10000⟩]) (.iterate 0 0 2000)
      (crowded [] none 0 served []) :=
    ⟨Nat.zero_le _, rfl, none, ⟨[⟨1, 10000⟩], [0], none, some 2000000000⟩, by decide, rfl⟩
  have told : AdoptingStep true (crowded [] none 0 served []) (.cooldown 0 1)
      (crowded [1000000000] (some 1000000000) 0 served []) := ⟨⟨Nat.zero_le _, rfl⟩, rfl⟩
  exact .cons sent (.cons told (.nil _))

/-- Where the loop is after its three refusals. -/
def overtaken : Nat → Loop :=
  Function.update (Function.update (Function.update served 1 (.sleeping 1005000000)) 1
    (.sleeping 2005000000)) 1 (.sleeping 10005000000)

/-- The cooldown, the pacer and the window refuse the loop one after the other. -/
theorem run_crowded : Run (AdoptingStep true)
    (crowded [1000000000] (some 1000000000) 0 served [])
    [.iterate 1 0 0, .iterate 1 1005000000 0, .iterate 1 2005000000 0]
    (crowded [1000000000] none 2005000000 overtaken [.passed 2005000000 [⟨1, 10000⟩]]) := by
  have cooled : AdoptingStep true (crowded [1000000000] (some 1000000000) 0 served [])
      (.iterate 1 0 0) (crowded [1000000000] (some 1000000000) 0
        (Function.update served 1 (.sleeping 1005000000)) []) :=
    ⟨Nat.zero_le _, rfl, some 1000000000, _, by decide, rfl⟩
  have paced : AdoptingStep true (crowded [1000000000] (some 1000000000) 0
        (Function.update served 1 (.sleeping 1005000000)) []) (.iterate 1 1005000000 0)
      (crowded [1000000000] none 1005000000 (Function.update
        (Function.update served 1 (.sleeping 1005000000)) 1 (.sleeping 2005000000)) []) :=
    ⟨Nat.zero_le _, by decide, some 995000000,
      ⟨[⟨1, 10000⟩], [0], none, some 2000000000⟩, by decide, rfl⟩
  exact .cons cooled (.cons paced (.cons ⟨by decide, by decide, some 7995000000,
    ⟨[⟨1, 10000⟩], [0], none, some 2000000000⟩, by decide, rfl⟩ (.nil _)))

/-- Three refusals, and once the window has moved on the loop is granted. -/
theorem acquire_turns_crowded :
    3 + 3 * 1 ≤ 3 * (1 + 0 + 1) ∧
      ∃ event later, Adopting.Event.turnOf 1 event = true ∧
        AdoptingStep true
          (crowded [1000000000] none 2005000000 overtaken [.passed 2005000000 [⟨1, 10000⟩]])
          event later := by
  obtain ⟨bound, alone⟩ := acquire_turns true crowded_reached run_crowded 1
  exact ⟨bound, (alone [] _ (.nil _) (by simp)).2 (by decide) (by decide)⟩

end LolCrawler.Node
