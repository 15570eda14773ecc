import LolCrawler.Node.RateLimiter

/-! # Windows replaced at run time

`update_specs` replaces the windows between two iterations. An iteration that reaches the
windows forgets the sends that have left the largest of them by then, so what is kept
depends on every pass since a send (`remembered`) and not only on the windows in force.
-/

namespace LolCrawler.Node

open Foundation

/-- What a limiter does that its history depends on. -/
inductive Deed where
  /-- An iteration reaches the windows. -/
  | passed (now : Nat) (specs : List WindowSpec)
  | sent (now : Nat)

def Deed.sent? : Deed → Option Nat
  | .passed _ _ => none
  | .sent now => some now

def Deed.time : Deed → Nat
  | .passed now _ => now
  | .sent now => now

/-- A pass after which the send at this time is pruned. -/
def Deed.prunes (time : Nat) : Deed → Bool
  | .passed now specs => maxWindow specs ≤ now - time
  | .sent _ => false

/-- The sends that no pass since has pruned. -/
def remembered : List Deed → List Nat
  | [] => []
  | .passed _ _ :: later => remembered later
  | .sent time :: later =>
      if later.any (Deed.prunes time) then remembered later else time :: remembered later

/-- A limiter with its passes and sends in order. -/
structure Adopting where
  limiter : Limiter
  deeds : List Deed

def Adopting.new (specs : List WindowSpec) : Adopting := ⟨.new specs, []⟩

inductive Adopting.Event where
  | iterate (loop now gapMs : Nat)
  | cooldown (now secs : Nat)
  | updateSpecs (specs : List WindowSpec)

instance (pace : Bool) (now : Nat) (w : Windows) : Decidable (OpenGates pace now w) :=
  inferInstanceAs (Decidable (_ ∧ _))

/-- What an iteration does: it passes the windows if the gates are open, and it may send. -/
def iterated (pace : Bool) (now : Nat) (w : Windows) (wait : Option Nat) : List Deed :=
  (if OpenGates pace now w then [.passed now w.specs] else []) ++
    if wait = none then [.sent now] else []

/-- The steps of `LimiterStep`, and the adoption of windows between them. -/
def AdoptingStep (pace : Bool) (state : Adopting) : Adopting.Event → Adopting → Prop
  | .iterate loop now gapMs, next =>
      state.limiter.clock ≤ now ∧ (state.limiter.loops loop).ready now ∧
        ∃ wait windows, acquireOnce pace now gapMs state.limiter.windows = some (wait, windows) ∧
          next = ⟨state.limiter.iterated loop now windows wait,
            state.deeds ++ iterated pace now state.limiter.windows wait⟩
  | .cooldown now secs, next =>
      LimiterStep pace state.limiter (.cooldown now secs) next.limiter ∧ next.deeds = state.deeds
  | .updateSpecs specs, next =>
      next =
        { state with
          limiter :=
            { state.limiter with windows := updateSpecs specs state.limiter.windows } }

/-! ## What passes leave -/

/-- A send is remembered. -/
theorem remembered_sent (deeds : List Deed) (now : Nat) :
    remembered (deeds ++ [.sent now]) = remembered deeds ++ [now] := by
  induction deeds with
  | nil => rfl
  | cons deed deeds ih =>
      cases deed with
      | passed past specs => exact ih
      | sent time =>
          rw [List.cons_append, remembered, remembered, ih, List.any_append]
          simp only [List.any_cons, List.any_nil, Deed.prunes, Bool.or_false]
          split
          · rfl
          · rfl

/-- A pass forgets what is older than the longest window. -/
theorem remembered_passed (deeds : List Deed) (now : Nat) (specs : List WindowSpec) :
    remembered (deeds ++ [.passed now specs]) =
      (remembered deeds).filter fun time => now - time < maxWindow specs := by
  induction deeds with
  | nil => rfl
  | cons deed deeds ih =>
      cases deed with
      | passed past others => exact ih
      | sent time =>
          rw [List.cons_append, remembered, remembered, ih, List.any_append]
          by_cases before : deeds.any (Deed.prunes time) = true
          · simp only [before, Bool.true_or, ↓reduceIte]
          · rw [Bool.not_eq_true] at before
            simp only [before, Bool.false_or, List.any_cons, List.any_nil, Bool.or_false,
              Deed.prunes, Bool.false_eq_true, ↓reduceIte, List.filter_cons]
            by_cases out : maxWindow specs ≤ now - time
            · rw [if_pos (decide_eq_true out), if_neg (by simpa using out)]
            · rw [if_neg (by simpa using out), if_pos (by simpa using out)]

/-- Each pass since a send in the window that ends now was over one at least as large. -/
def Spared (deeds : List Deed) (width now : Nat) : Prop :=
  ∀ before time later, deeds = before ++ .sent time :: later → now < time + width →
    ∀ past specs, .passed past specs ∈ later → width ≤ maxWindow specs

/-- Who is spared by all deeds is spared by the later ones. -/
theorem Spared.tail {deed : Deed} {deeds : List Deed} {width now : Nat}
    (spared : Spared (deed :: deeds) width now) : Spared deeds width now :=
  fun before time later same => spared (deed :: before) time later (by rw [same]; rfl)

/-- Then the sends of the window are remembered. -/
theorem Spared.filter_eq {deeds : List Deed} {width now : Nat} (spared : Spared deeds width now)
    (ended : ∀ deed ∈ deeds, deed.time ≤ now) :
    (remembered deeds).filter (fun time => now < time + width) =
      (deeds.filterMap Deed.sent?).filter fun time => now < time + width := by
  induction deeds with
  | nil => rfl
  | cons deed deeds ih =>
      have rest := ih spared.tail fun deed inside => ended deed (by simp [inside])
      cases deed with
      | passed past specs =>
          rw [List.filterMap_cons_none rfl]
          exact rest
      | sent time =>
          have grants : (Deed.sent time :: deeds).filterMap Deed.sent? =
              time :: deeds.filterMap Deed.sent? := List.filterMap_cons_some rfl
          rw [grants, List.filter_cons, remembered]
          by_cases inside : now < time + width
          · have kept : deeds.any (Deed.prunes time) = false := by
              rw [List.any_eq_false]
              intro deed among
              cases deed with
              | sent other => exact Bool.false_ne_true
              | passed past specs =>
                  have large := spared [] time deeds rfl inside past specs among
                  have before : past ≤ now := ended (.passed past specs) (by simp [among])
                  have start : time ≤ now := ended (.sent time) List.mem_cons_self
                  simp only [Deed.prunes, decide_eq_true_eq]
                  omega
            rw [kept, if_neg Bool.false_ne_true, List.filter_cons, rest]
          · rw [if_neg (show ¬ decide (now < time + width) = true by simpa using inside), ← rest]
            split
            · rfl
            · rw [List.filter_cons,
                if_neg (show ¬ decide (now < time + width) = true by simpa using inside)]

/-! ## The runs -/

/-- The deque is told by the passes and sends so far. -/
structure Traced (state : Adopting) : Prop where
  sent : state.limiter.windows.sent = remembered state.deeds
  grants : state.limiter.grants = state.deeds.filterMap Deed.sent?
  ordered : state.limiter.windows.sent.Pairwise (· ≤ ·)
  past : ∀ time ∈ state.limiter.windows.sent, time ≤ state.limiter.clock
  ended : ∀ deed ∈ state.deeds, deed.time ≤ state.limiter.clock

namespace Traced

variable {state : Adopting} {pace : Bool} {now gapMs : Nat} {wait : Option Nat}
  {windows : Windows}

/-- At the start there are no deeds. -/
theorem new (specs : List WindowSpec) : Traced (.new specs) :=
  ⟨rfl, rfl, .nil, nofun, nofun⟩

/-- What is pruned is what is remembered. -/
theorem pruned (traced : Traced state) (now : Nat) :
    prune now state.limiter.windows =
      remembered (state.deeds ++ [.passed now state.limiter.windows.specs]) := by
  rw [remembered_passed, ← traced.sent]
  exact dropWhile_eq_filter traced.ordered

/-- What an iteration does to the deque. -/
theorem iteration (traced : Traced state)
    (done : acquireOnce pace now gapMs state.limiter.windows = some (wait, windows)) :
    windows.sent = remembered (state.deeds ++ iterated pace now state.limiter.windows wait) ∧
      windows.sent.Sublist (state.limiter.windows.sent ++ [now]) := by
  have whole : state.limiter.windows.sent.Sublist (state.limiter.windows.sent ++ [now]) :=
    List.sublist_append_left _ _
  rw [iterated]
  cases gate : gateWait now state.limiter.windows.cooldownUntil with
  | some d =>
      rw [acquireOnce_cooling gate] at done
      cases done
      have closed : ¬ OpenGates pace now state.limiter.windows := fun gates => by
        rw [gates.1] at gate
        cases gate
      rw [if_neg closed, if_neg nofun, List.append_nil, List.append_nil]
      exact ⟨traced.sent, whole⟩
  | none =>
      by_cases gates : OpenGates pace now state.limiter.windows
      · have fewer : (prune now state.limiter.windows).Sublist state.limiter.windows.sent :=
          List.dropWhile_sublist _
        rw [if_pos gates, ← List.append_assoc]
        cases pass : state.limiter.windows.specs.foldlM
            (windowWait now (prune now state.limiter.windows)) none with
        | none =>
            rw [acquireOnce_failed gates pass] at done
            cases done
        | some wait =>
            cases wait with
            | some d =>
                rw [acquireOnce_refused gates pass] at done
                cases done
                rw [if_neg nofun, List.append_nil]
                exact ⟨traced.pruned now, fewer.trans whole⟩
            | none =>
                rw [acquireOnce_sent gates pass] at done
                cases done
                rw [if_pos rfl, remembered_sent, ← traced.pruned]
                exact ⟨rfl, fewer.append_right _⟩
      · obtain ⟨d, paced⟩ := acquireOnce_paced gapMs gate gates
        rw [paced] at done
        cases done
        rw [if_neg gates, if_neg nofun, List.append_nil, List.append_nil]
        exact ⟨traced.sent, whole⟩

/-- An iteration is traced. -/
theorem iterate (traced : Traced state) (ahead : state.limiter.clock ≤ now)
    (done : acquireOnce pace now gapMs state.limiter.windows = some (wait, windows))
    (loop : Nat) :
    Traced ⟨state.limiter.iterated loop now windows wait,
      state.deeds ++ iterated pace now state.limiter.windows wait⟩ := by
  obtain ⟨sent, fewer⟩ := traced.iteration done
  have ordered : (state.limiter.windows.sent ++ [now]).Pairwise (· ≤ ·) := by
    refine List.pairwise_append.mpr ⟨traced.ordered, List.pairwise_singleton _ _, ?_⟩
    intro time inside last same
    rw [List.mem_singleton.mp same]
    exact Nat.le_trans (traced.past time inside) ahead
  have past : ∀ time ∈ state.limiter.windows.sent ++ [now], time ≤ now := by
    intro time inside
    rcases List.mem_append.mp inside with inside | same
    · exact Nat.le_trans (traced.past time inside) ahead
    · rw [List.mem_singleton.mp same]
  have kept : (state.limiter.iterated loop now windows wait).windows = windows ∧
      (state.limiter.iterated loop now windows wait).clock = now := by
    cases wait with
    | none => exact ⟨rfl, rfl⟩
    | some d => exact ⟨rfl, rfl⟩
  refine ⟨?_, ?_, ?_, ?_, ?_⟩
  · rw [kept.1]
    exact sent
  · have passes : (if OpenGates pace now state.limiter.windows then
        [Deed.passed now state.limiter.windows.specs] else []).filterMap Deed.sent? = [] := by
      split
      · rfl
      · rfl
    rw [iterated, List.filterMap_append, List.filterMap_append, passes, List.nil_append,
      ← traced.grants]
    cases wait with
    | none => rfl
    | some d => exact (List.append_nil _).symm
  · rw [kept.1]
    exact ordered.sublist fewer
  · rw [kept.1, kept.2]
    exact fun time inside => past time (fewer.subset inside)
  · intro deed inside
    rw [kept.2]
    rcases List.mem_append.mp inside with inside | inside
    · exact Nat.le_trans (traced.ended deed inside) ahead
    · rw [iterated] at inside
      rcases List.mem_append.mp inside with inside | inside
      · split at inside
        · cases List.mem_singleton.mp inside
          exact Nat.le_refl _
        · cases inside
      · split at inside
        · cases List.mem_singleton.mp inside
          exact Nat.le_refl _
        · cases inside

/-- **One step** is traced. -/
theorem step {event : Adopting.Event} {next : Adopting} (traced : Traced state)
    (step : AdoptingStep pace state event next) : Traced next := by
  cases event with
  | iterate loop now gapMs =>
      obtain ⟨ahead, -, wait, windows, done, rfl⟩ := step
      exact traced.iterate ahead done loop
  | cooldown now secs =>
      obtain ⟨⟨ahead, same⟩, still⟩ := step
      have sent : next.limiter.windows.sent = state.limiter.windows.sent := by
        rw [same, cooldown]
        dsimp only
        split
        · rfl
        · rfl
      have grants : next.limiter.grants = state.limiter.grants := by rw [same]
      have clock : state.limiter.clock ≤ next.limiter.clock := by rw [same]; exact ahead
      refine ⟨?_, ?_, ?_, ?_, ?_⟩
      · rw [sent, still]
        exact traced.sent
      · rw [grants, still]
        exact traced.grants
      · rw [sent]
        exact traced.ordered
      · rw [sent]
        exact fun time inside => Nat.le_trans (traced.past time inside) clock
      · rw [still]
        exact fun deed inside => Nat.le_trans (traced.ended deed inside) clock
  | updateSpecs specs =>
      obtain rfl := step
      have sent : (updateSpecs specs state.limiter.windows).sent = state.limiter.windows.sent := by
        rw [updateSpecs]
        split
        · rfl
        · split
          · rfl
          · rfl
      exact ⟨sent ▸ traced.sent, traced.grants, sent ▸ traced.ordered, sent ▸ traced.past,
        traced.ended⟩

end Traced

/-- A send is within the windows, as far as the deque tells. -/
theorem sent_rooms {pace : Bool} {now gapMs : Nat} {w windows : Windows}
    (done : acquireOnce pace now gapMs w = some (none, windows))
    (ordered : w.sent.Pairwise (· ≤ ·)) (past : ∀ time ∈ w.sent, time ≤ now) :
    ∀ spec ∈ w.specs, within spec.win now w.sent < spec.limit := by
  have fewer : (prune now w).Sublist w.sent := List.dropWhile_sublist _
  have kept : Kept w.specs now w.sent (prune now w) := Kept.prune ⟨[], rfl, nofun⟩ past
  have gate : gateWait now w.cooldownUntil = none := by
    cases gate : gateWait now w.cooldownUntil with
    | none => rfl
    | some d =>
        rw [acquireOnce_cooling gate] at done
        cases done
  have gates : OpenGates pace now w := by
    by_contra closed
    obtain ⟨d, paced⟩ := acquireOnce_paced gapMs gate closed
    rw [paced] at done
    cases done
  have positive : ∀ spec ∈ w.specs, 1 ≤ spec.limit := by
    by_contra bad
    push Not at bad
    obtain ⟨spec, among, zero⟩ := bad
    rw [acquireOnce_failed gates (Enforced.windowWaits_zero among (by omega) none)] at done
    cases done
  obtain ⟨wait, waits, room⟩ := windowWaits_spec positive (ordered.sublist fewer)
    (fun time inside => past time (fewer.subset inside)) none
  cases wait with
  | some d =>
      rw [acquireOnce_refused gates waits] at done
      cases done
  | none =>
      intro spec among
      have here := ((room 0).mp (Nat.le_refl _)).2 spec among
      rw [← kept.within_eq among] at here
      exact here

/-- **Replaced windows.** The deque holds the sends that no pass since has pruned. So it holds
every send in the largest window now in force, if each pass since such a send was over one at
least as large. A request that goes out is within each window of which the same is true, with
respect to every send before it. -/
theorem adopted_windows (pace : Bool) {specs : List WindowSpec} {events : List Adopting.Event}
    {state : Adopting} (run : Run (AdoptingStep pace) (.new specs) events state) :
    state.limiter.windows.sent = remembered state.deeds ∧
      state.limiter.grants = state.deeds.filterMap Deed.sent? ∧
      ∀ now, state.limiter.clock ≤ now →
        (Spared state.deeds (maxWindow state.limiter.windows.specs) now →
          state.limiter.windows.sent.filter
              (fun time => now < time + maxWindow state.limiter.windows.specs) =
            state.limiter.grants.filter
              fun time => now < time + maxWindow state.limiter.windows.specs) ∧
        ∀ gapMs windows,
          acquireOnce pace now gapMs state.limiter.windows = some (none, windows) →
            ∀ spec ∈ state.limiter.windows.specs, Spared state.deeds spec.win now →
              within spec.win now state.limiter.grants < spec.limit := by
  have traced : Traced state :=
    run.invariant Traced (fun _ _ _ held step => held.step step) (.new specs)
  refine ⟨traced.sent, traced.grants, fun now ahead => ?_⟩
  have ended : ∀ deed ∈ state.deeds, deed.time ≤ now := fun deed inside =>
    Nat.le_trans (traced.ended deed inside) ahead
  constructor
  · intro spared
    rw [traced.sent, traced.grants]
    exact spared.filter_eq ended
  · intro gapMs windows done spec among spared
    have room := sent_rooms done traced.ordered
      (fun time inside => Nat.le_trans (traced.past time inside) ahead) spec among
    rw [← within_filter, traced.sent, spared.filter_eq ended, within_filter] at room
    rw [traced.grants]
    exact room

/-- A limiter that has sent, adopted a short window, passed over it, and adopted a long one. -/
def forgetful : Adopting where
  limiter :=
    { windows := ⟨[⟨2, 120000⟩], [2000000000], none, none⟩
      sentTotal := 2
      loops := Function.update (Function.update (fun _ => .started) 0 .returned) 1 .returned
      clock := 2000000000
      grants := [0, 2000000000]
      cooldowns := [] }
  deeds :=
    [.passed 0 [⟨2, 120000⟩], .sent 0, .passed 2000000000 [⟨2, 1000⟩], .sent 2000000000]

def forgetting : List Adopting.Event :=
  [.iterate 0 0 0, .updateSpecs [⟨2, 1000⟩], .iterate 1 2000000000 0, .updateSpecs [⟨2, 120000⟩]]

/-- The forgetful state is reached. -/
theorem run_forgetful :
    Run (AdoptingStep false) (.new [⟨2, 120000⟩]) forgetting forgetful := by
  refine .cons ⟨Nat.zero_le _, rfl, none, ⟨[⟨2, 120000⟩], [0], none, none⟩, by decide, rfl⟩
    (.cons rfl (.cons ⟨Nat.zero_le _, rfl, none, ⟨[⟨2, 1000⟩], [2000000000], none, none⟩,
      by decide, rfl⟩ (.cons rfl (.nil _))))

/-- The second request in the window is the third. -/
theorem adopted_windows_forgetful :
    remembered forgetful.deeds = [2000000000] ∧
      ¬ Spared forgetful.deeds (fromMillis 120000) 2000000000 := by
  obtain ⟨sent, -, here⟩ := adopted_windows false run_forgetful
  refine ⟨sent.symm, fun spared => ?_⟩
  have all := (here 2000000000 (Nat.le_refl _)).1 spared
  revert all
  decide

/-- The send at time 0 is in the window of two minutes, and not in the deque. -/
theorem adopted_windows_lose_sends :
    ¬ ∀ (pace : Bool) (specs : List WindowSpec) (events : List Adopting.Event) (state : Adopting),
      (∀ spec ∈ specs, 1 ≤ spec.limit) →
      (∀ adopted, .updateSpecs adopted ∈ events →
        adopted ≠ [] ∧ ∀ spec ∈ adopted, 1 ≤ spec.limit) →
      Run (AdoptingStep pace) (.new specs) events state →
        ∀ now, state.limiter.clock ≤ now → ∀ time ∈ state.limiter.grants,
          now < time + maxWindow state.limiter.windows.specs →
            time ∈ state.limiter.windows.sent := by
  intro full
  have positive : ∀ adopted, .updateSpecs adopted ∈ forgetting →
      adopted ≠ [] ∧ ∀ spec ∈ adopted, 1 ≤ spec.limit := by
    intro adopted inside
    simp only [forgetting, List.mem_cons, reduceCtorEq, Adopting.Event.updateSpecs.injEq,
      List.not_mem_nil, or_false, false_or] at inside
    rcases inside with rfl | rfl
    · decide
    · decide
  have inside := full false [⟨2, 120000⟩] forgetting forgetful (by decide) positive run_forgetful
    2000000000 (Nat.le_refl _) 0 (by decide) (by decide)
  revert inside
  decide

end LolCrawler.Node
