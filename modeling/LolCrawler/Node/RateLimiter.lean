import Mathlib.Data.List.TakeWhile
import Mathlib.Order.Bounds.Basic
import LolCrawler.Foundation.Run
import LolCrawler.Foundation.Window

/-! # The rate limiter of a node

Acquire loops share one limiter. Each iteration of a loop holds the mutex: it checks
the cooldown, the pacing slot and the windows, in this order, and sends or sleeps.
Cooldowns come in between.

Instants and durations are nanoseconds. The gap of the pacer is a random number of
milliseconds and can be any; the overflow of instants is not modelled.
-/

namespace LolCrawler.Node

open Foundation

structure WindowSpec where
  limit : Nat
  windowMs : Nat
deriving DecidableEq

def fromMillis (ms : Nat) : Nat := ms * 1000000

def fromSecs (secs : Nat) : Nat := secs * 1000000000

/-- `Duration::from_millis(spec.window_ms)` -/
def WindowSpec.win (spec : WindowSpec) : Nat := fromMillis spec.windowMs

structure Windows where
  specs : List WindowSpec
  /-- Send times of recent requests, pruned past the largest window. -/
  sent : List Nat
  /-- Do not send anything before this time. -/
  cooldownUntil : Option Nat
  /-- Earliest time the next send may go out. -/
  nextSlot : Option Nat
deriving DecidableEq

def Windows.new (specs : List WindowSpec) : Windows := ⟨specs, [], none, none⟩

def maxWindow (specs : List WindowSpec) : Nat :=
  fromMillis ((specs.map WindowSpec.windowMs).max?.getD 0)

/-- The sends that may still be in a window. -/
def prune (now : Nat) (w : Windows) : List Nat :=
  w.sent.dropWhile fun front => maxWindow w.specs ≤ now - front

def inWindow (now : Nat) (sent : List Nat) (spec : WindowSpec) : Nat :=
  (sent.reverse.takeWhile fun time => now - time < spec.win).length

/-- One pass of the loop over the windows. `none` is an index out of bounds. -/
def windowWait (now : Nat) (sent : List Nat) (wait : Option Nat) (spec : WindowSpec) :
    Option (Option Nat) :=
  if spec.limit ≤ inWindow now sent spec then do
    let nthNewest ← sent[sent.length - spec.limit]?
    let d := spec.win - (now - nthNewest)
    some (some (wait.elim d fun cur => max cur d))
  else some wait

/-- How long the gate stays closed. -/
def gateWait (now : Nat) (gate : Option Nat) : Option Nat :=
  gate.bind fun opens => if now < opens then some (opens - now) else none

/-- One iteration of `acquire`: how long to wait, or nothing after a send. -/
def acquireOnce (pace : Bool) (now gapMs : Nat) (w : Windows) : Option (Option Nat × Windows) :=
  match gateWait now w.cooldownUntil with
  | some wait => some (some wait, w)
  | none =>
      -- The cooldown is over, or there was none.
      let w := { w with cooldownUntil := none }
      match if pace then gateWait now w.nextSlot else none with
      | some wait => some (some wait, w)
      | none => do
          let w := { w with sent := prune now w }
          let wait ← w.specs.foldlM (windowWait now w.sent) none
          match wait with
          | some d => some (some d, w)
          | none =>
              some (none,
                { w with
                  sent := w.sent ++ [now]
                  nextSlot := if pace then some (now + fromMillis gapMs) else w.nextSlot })

/-- Replaces the limit windows with server-declared ones. -/
def updateSpecs (specs : List WindowSpec) (w : Windows) : Windows :=
  if specs = [] then w else if w.specs = specs then w else { w with specs := specs }

/-- Called on a 429. -/
def cooldown (now secs : Nat) (w : Windows) : Windows :=
  let deadline := now + fromSecs secs
  if w.cooldownUntil.all fun u => u < deadline then { w with cooldownUntil := some deadline } else w

/-! ## The loops -/

/-- Where an acquire loop is. -/
inductive Loop where
  | started
  | sleeping (wake : Nat)
  | returned
deriving DecidableEq

/-- The loop may take the mutex. -/
def Loop.ready (now : Nat) : Loop → Bool
  | .started => true
  | .sleeping wake => wake ≤ now
  | .returned => false

/-- The limiter, its loops, and the history of its sends and cooldowns. -/
structure Limiter where
  windows : Windows
  sentTotal : Nat
  loops : Nat → Loop
  clock : Nat
  /-- When requests were sent. -/
  grants : List Nat
  /-- When the cooldowns issued so far end. -/
  cooldowns : List Nat

def Limiter.new (specs : List WindowSpec) : Limiter :=
  ⟨.new specs, 0, fun _ => .started, 0, [], []⟩

inductive Event where
  | iterate (loop now gapMs : Nat)
  | cooldown (now secs : Nat)

/-- The loop returns, or sleeps a little longer than the wait. -/
def Limiter.iterated (state : Limiter) (loop now : Nat) (windows : Windows) : Option Nat → Limiter
  | some d =>
      { state with
        windows := windows
        clock := now
        loops := Function.update state.loops loop (.sleeping (now + d + fromMillis 5)) }
  | none =>
      { state with
        windows := windows
        clock := now
        sentTotal := state.sentTotal + 1
        loops := Function.update state.loops loop .returned
        grants := state.grants ++ [now] }

/-- The mutex orders the instants. -/
def LimiterStep (pace : Bool) (state : Limiter) : Event → Limiter → Prop
  | .iterate loop now gapMs, next =>
      state.clock ≤ now ∧ (state.loops loop).ready now ∧
        ∃ wait windows, acquireOnce pace now gapMs state.windows = some (wait, windows) ∧
          next = state.iterated loop now windows wait
  | .cooldown now secs, next =>
      state.clock ≤ now ∧ next =
        { state with
          windows := cooldown now secs state.windows
          clock := now
          cooldowns := state.cooldowns ++ [now + fromSecs secs] }

/-! ## The windows -/

section Specs

variable {now : Nat} {sent : List Nat}

/-- One window: what the wait says about it. -/
theorem windowWait_spec {spec : WindowSpec} (positive : 1 ≤ spec.limit)
    (ordered : sent.Pairwise (· ≤ ·)) (past : ∀ time ∈ sent, time ≤ now) (wait : Option Nat) :
    ∃ wait', windowWait now sent wait spec = some wait' ∧
      ∀ d, wait'.getD 0 ≤ d ↔
        wait.getD 0 ≤ d ∧ within spec.win (now + d) sent < spec.limit := by
  have counted : inWindow now sent spec = within spec.win now sent := within_newest ordered past
  unfold windowWait
  rw [counted]
  split
  · next full =>
      have enough : spec.limit ≤ sent.length := Nat.le_trans full within_le_length
      have bound : sent.length - spec.limit < sent.length := by omega
      have nth : sent[sent.length - spec.limit]? = some sent[sent.length - spec.limit] :=
        List.getElem?_eq_getElem bound
      have before := past _ (List.getElem_mem bound)
      rw [nth]
      refine ⟨_, rfl, fun d => ?_⟩
      have later : ∀ time ∈ sent, time ≤ now + d := by
        intro time inside
        have earlier := past time inside
        omega
      rw [within_lt_iff ordered later enough nth]
      cases wait with
      | none =>
          simp only [Option.elim, Option.getD_some, Option.getD_none]
          omega
      | some cur =>
          simp only [Option.elim, Option.getD_some]
          omega
  · next room =>
      refine ⟨wait, rfl, fun d => ⟨fun enough => ⟨enough, ?_⟩, And.left⟩⟩
      have less := @within_later spec.win now (now + d) sent past (by omega)
      omega

/-- **The wait.** It is long enough exactly when every window has room. -/
theorem windowWaits_spec {specs : List WindowSpec} (positive : ∀ spec ∈ specs, 1 ≤ spec.limit)
    (ordered : sent.Pairwise (· ≤ ·)) (past : ∀ time ∈ sent, time ≤ now) (wait : Option Nat) :
    ∃ wait', specs.foldlM (windowWait now sent) wait = some wait' ∧
      ∀ d, wait'.getD 0 ≤ d ↔
        wait.getD 0 ≤ d ∧ ∀ spec ∈ specs, within spec.win (now + d) sent < spec.limit := by
  induction specs generalizing wait with
  | nil => exact ⟨wait, rfl, fun d => by simp⟩
  | cons spec specs ih =>
      obtain ⟨first, one, room⟩ :=
        windowWait_spec (positive spec List.mem_cons_self) ordered past wait
      obtain ⟨rest, all, rooms⟩ := ih (fun other inside => positive other (by simp [inside])) first
      refine ⟨rest, ?_, fun d => ?_⟩
      · rw [List.foldlM_cons, one]
        exact all
      · rw [rooms, room, List.forall_mem_cons, and_assoc]

/-- No window is longer than the longest. -/
theorem le_maxWindow {specs : List WindowSpec} {spec : WindowSpec} (inside : spec ∈ specs) :
    spec.win ≤ maxWindow specs := by
  apply Nat.mul_le_mul_right
  have member : spec.windowMs ∈ specs.map WindowSpec.windowMs := List.mem_map_of_mem inside
  cases greatest : (specs.map WindowSpec.windowMs).max? with
  | none =>
      rw [List.max?_eq_none_iff.mp greatest] at member
      cases member
  | some most => exact (List.max?_eq_some_iff.mp greatest).2 _ member

end Specs

/-! ## What is kept of the history -/

/-- The limiter forgets only sends that have left every window. -/
def Kept (specs : List WindowSpec) (now : Nat) (grants sent : List Nat) : Prop :=
  ∃ dropped, grants = dropped ++ sent ∧
    ∀ time ∈ dropped, ∀ spec ∈ specs, time + spec.win ≤ now

namespace Kept

variable {specs : List WindowSpec} {now : Nat} {grants sent : List Nat}

/-- What is kept stays kept as time goes on. -/
theorem later {clock : Nat} (kept : Kept specs clock grants sent) (ahead : clock ≤ now) :
    Kept specs now grants sent := by
  obtain ⟨dropped, same, gone⟩ := kept
  exact ⟨dropped, same, fun time inside spec among =>
    Nat.le_trans (gone time inside spec among) ahead⟩

/-- What is pruned is in no window. -/
theorem prune {w : Windows} (kept : Kept w.specs now grants w.sent)
    (past : ∀ time ∈ grants, time ≤ now) : Kept w.specs now grants (prune now w) := by
  obtain ⟨dropped, same, gone⟩ := kept
  refine ⟨dropped ++ w.sent.takeWhile fun front => maxWindow w.specs ≤ now - front, ?_,
    fun time inside spec among => ?_⟩
  · rw [Node.prune, List.append_assoc, List.takeWhile_append_dropWhile]
    exact same
  · rcases List.mem_append.mp inside with inside | inside
    · exact gone time inside spec among
    · have old := List.mem_takeWhile_imp inside
      have member : time ∈ grants := by
        rw [same]
        exact List.mem_append_right _ ((List.takeWhile_sublist _).subset inside)
      have before := past time member
      have widest := le_maxWindow among
      simp only [decide_eq_true_eq] at old
      omega

/-- A send is kept. -/
theorem send (kept : Kept specs now grants sent) (time : Nat) :
    Kept specs now (grants ++ [time]) (sent ++ [time]) := by
  obtain ⟨dropped, same, gone⟩ := kept
  exact ⟨dropped, by rw [same, List.append_assoc], gone⟩

/-- The kept sends decide what is in a window. -/
theorem within_eq (kept : Kept specs now grants sent) {spec : WindowSpec} (among : spec ∈ specs)
    (d : Nat) : within spec.win (now + d) grants = within spec.win (now + d) sent := by
  obtain ⟨dropped, rfl, gone⟩ := kept
  apply within_drop
  intro time inside
  have out := gone time inside spec among
  omega

end Kept

/-! ## The invariant -/

/-- Nothing but the windows can refuse an iteration. -/
def OpenGates (pace : Bool) (now : Nat) (w : Windows) : Prop :=
  gateWait now w.cooldownUntil = none ∧ (pace = true → gateWait now w.nextSlot = none)

/-- A gate is open if it opened before. -/
theorem gateWait_eq_none {now : Nat} {gate : Option Nat} :
    gateWait now gate = none ↔ ∀ opens, gate = some opens → opens ≤ now := by
  cases gate with
  | none => simp [gateWait]
  | some opens =>
      rw [gateWait, Option.bind_some]
      split
      · next closed =>
          simp only [reduceCtorEq, Option.some.injEq, false_iff]
          intro past
          have here := past opens rfl
          omega
      · next ending =>
          simp only [Option.some.injEq, true_iff]
          rintro _ rfl
          omega

section Iteration

variable {pace : Bool} {now gapMs d : Nat} {w : Windows}

/-- In a cooldown the call waits, and nothing changes. -/
theorem acquireOnce_cooling (gate : gateWait now w.cooldownUntil = some d) :
    acquireOnce pace now gapMs w = some (some d, w) := by
  rw [acquireOnce, gate]

/-- At a closed gate the call waits, and nothing is sent. -/
theorem acquireOnce_paced (gapMs : Nat) (gate : gateWait now w.cooldownUntil = none)
    (closed : ¬ OpenGates pace now w) :
    ∃ d, acquireOnce pace now gapMs w = some (some d, { w with cooldownUntil := none }) := by
  cases pace with
  | false => exact (closed ⟨gate, nofun⟩).elim
  | true =>
      cases slot : gateWait now w.nextSlot with
      | none => exact (closed ⟨gate, fun _ => slot⟩).elim
      | some d =>
          refine ⟨d, ?_⟩
          simp only [acquireOnce, gate, slot, ↓reduceIte]

/-- Open gates do not pace. -/
theorem OpenGates.paced (gates : OpenGates pace now w) :
    (if pace then gateWait now w.nextSlot else none) = none := by
  split
  · next on => exact gates.2 on
  · rfl

/-- A full window refuses. -/
theorem acquireOnce_refused (gates : OpenGates pace now w)
    (pass : w.specs.foldlM (windowWait now (prune now w)) none = some (some d)) :
    acquireOnce pace now gapMs w =
      some (some d, { w with cooldownUntil := none, sent := prune now w }) := by
  have pass' : w.specs.foldlM (windowWait now (prune now { w with cooldownUntil := none })) none =
      some (some d) := pass
  simp only [acquireOnce, gates.1, gates.paced, pass']
  rfl

/-- If the pass over the windows fails, so does the call. -/
theorem acquireOnce_failed (gates : OpenGates pace now w)
    (pass : w.specs.foldlM (windowWait now (prune now w)) none = none) :
    acquireOnce pace now gapMs w = none := by
  have pass' : w.specs.foldlM (windowWait now (prune now { w with cooldownUntil := none })) none =
      none := pass
  simp only [acquireOnce, gates.1, gates.paced, pass']
  rfl

/-- With room in every window the call sends. -/
theorem acquireOnce_sent (gates : OpenGates pace now w)
    (pass : w.specs.foldlM (windowWait now (prune now w)) none = some none) :
    acquireOnce pace now gapMs w = some (none,
      { w with
        cooldownUntil := none
        sent := prune now w ++ [now]
        nextSlot := if pace then some (now + fromMillis gapMs) else w.nextSlot }) := by
  have pass' : w.specs.foldlM (windowWait now (prune now { w with cooldownUntil := none })) none =
      some none := pass
  simp only [acquireOnce, gates.1, gates.paced, pass']
  rfl

end Iteration

/-- What the limiter keeps to. -/
structure Enforced (specs : List WindowSpec) (state : Limiter) : Prop where
  fixed : state.windows.specs = specs
  ordered : state.grants.Pairwise (· ≤ ·)
  past : ∀ time ∈ state.grants, time ≤ state.clock
  kept : Kept specs state.clock state.grants state.windows.sent
  capped : ∀ spec ∈ specs, ∀ time, within spec.win time state.grants ≤ spec.limit
  cooling : ∀ ending ∈ state.cooldowns,
    ending ≤ state.clock ∨
      ∃ deadline, state.windows.cooldownUntil = some deadline ∧ ending ≤ deadline
  counted : state.sentTotal = state.grants.length

/-- What an iteration may do. -/
structure Obeys (specs : List WindowSpec) (pace : Bool) (state : Limiter) (now : Nat)
    (wait : Option Nat) : Prop where
  /-- A send comes after the end of every cooldown. -/
  cool : wait = none → ∀ ending ∈ state.cooldowns, ending ≤ now
  /-- The windows refuse for as long as it takes, and no longer. -/
  least : OpenGates pace now state.windows → ∀ d, wait = some d →
    IsLeast {d | ∀ spec ∈ specs, within spec.win (now + d) state.grants < spec.limit} d

namespace Enforced

variable {specs : List WindowSpec} {state : Limiter} {pace : Bool} {now : Nat}

/-- Time passes, and nothing is sent. -/
theorem wait (enforced : Enforced specs state) (ahead : state.clock ≤ now) {sent : List Nat}
    {gate slot : Option Nat} (kept : Kept specs now state.grants sent)
    (cooling : ∀ ending ∈ state.cooldowns,
      ending ≤ now ∨ ∃ deadline, gate = some deadline ∧ ending ≤ deadline) (loop d : Nat) :
    Enforced specs (state.iterated loop now ⟨state.windows.specs, sent, gate, slot⟩ (some d)) :=
  ⟨enforced.fixed, enforced.ordered,
    fun time inside => Nat.le_trans (enforced.past time inside) ahead, kept, enforced.capped,
    cooling, enforced.counted⟩

/-- A send that every window has room for. -/
theorem send (enforced : Enforced specs state) (ahead : state.clock ≤ now) {sent : List Nat}
    {slot : Option Nat} (kept : Kept specs now state.grants sent)
    (cool : ∀ ending ∈ state.cooldowns, ending ≤ now)
    (room : ∀ spec ∈ specs, within spec.win now state.grants < spec.limit) (loop : Nat) :
    Enforced specs
      (state.iterated loop now ⟨state.windows.specs, sent ++ [now], none, slot⟩ none) := by
  have past : ∀ time ∈ state.grants, time ≤ now := fun time inside =>
    Nat.le_trans (enforced.past time inside) ahead
  refine ⟨enforced.fixed, ?_, fun time inside => ?_, kept.send now, fun spec among time => ?_,
    fun ending inside => .inl (cool ending inside), ?_⟩
  · rw [Limiter.iterated, List.pairwise_append]
    refine ⟨enforced.ordered, List.pairwise_singleton _ _, fun time inside last same => ?_⟩
    rw [List.mem_singleton.mp same]
    exact past time inside
  · rcases List.mem_append.mp inside with inside | same
    · exact past time inside
    · rw [List.mem_singleton.mp same]
      exact Nat.le_refl _
  · rw [Limiter.iterated, within_append]
    by_cases counts : now ≤ time ∧ time < now + spec.win
    · -- What the window holds at `time` it held at the send, and there was room.
      have fewer := @within_later spec.win now time state.grants past counts.1
      have one := @within_le_length spec.win time [now]
      have free := room spec among
      rw [List.length_singleton] at one
      omega
    · have none : within spec.win time [now] = 0 := by
        apply List.countP_eq_zero.mpr
        intro other same
        rw [List.mem_singleton.mp same, decide_eq_true_eq]
        exact counts
      have before := enforced.capped spec among time
      omega
  · rw [Limiter.iterated, List.length_append, List.length_singleton, enforced.counted]

/-- A cooldown whose gate is open is over. -/
theorem cool (enforced : Enforced specs state) (ahead : state.clock ≤ now)
    (gate : gateWait now state.windows.cooldownUntil = none) :
    ∀ ending ∈ state.cooldowns, ending ≤ now := by
  intro ending inside
  rcases enforced.cooling ending inside with before | ⟨deadline, held, later⟩
  · exact Nat.le_trans before ahead
  · exact Nat.le_trans later (gateWait_eq_none.mp gate deadline held)

/-- The sends that were not pruned decide. -/
theorem rooms (enforced : Enforced specs state) (positive : ∀ spec ∈ specs, 1 ≤ spec.limit)
    (past : ∀ time ∈ state.grants, time ≤ now)
    (kept : Kept specs now state.grants (prune now state.windows)) :
    ∃ wait, state.windows.specs.foldlM (windowWait now (prune now state.windows)) none = some wait ∧
      ∀ d, wait.getD 0 ≤ d ↔
        ∀ spec ∈ specs, within spec.win (now + d) state.grants < spec.limit := by
  obtain ⟨dropped, same, -⟩ := id kept
  have ordered : (prune now state.windows).Pairwise (· ≤ ·) := by
    have all := enforced.ordered
    rw [same, List.pairwise_append] at all
    exact all.2.1
  have sent : ∀ time ∈ prune now state.windows, time ≤ now := by
    intro time inside
    apply past
    rw [same]
    exact List.mem_append_right _ inside
  rw [← enforced.fixed] at positive
  obtain ⟨wait, waits, room⟩ := windowWaits_spec positive ordered sent none
  refine ⟨wait, waits, fun d => ?_⟩
  rw [room, enforced.fixed]
  simp only [Option.getD_none, Nat.zero_le, true_and]
  apply forall₂_congr
  intro spec among
  rw [kept.within_eq among]

/-- **One iteration.** It never fails, and does no more than it may. -/
theorem iterate (enforced : Enforced specs state) (positive : ∀ spec ∈ specs, 1 ≤ spec.limit)
    (ahead : state.clock ≤ now) (pace : Bool) (gapMs loop : Nat) :
    ∃ wait windows, acquireOnce pace now gapMs state.windows = some (wait, windows) ∧
      Obeys specs pace state now wait ∧
      Enforced specs (state.iterated loop now windows wait) := by
  have past : ∀ time ∈ state.grants, time ≤ now := fun time inside =>
    Nat.le_trans (enforced.past time inside) ahead
  have still := enforced.kept.later ahead
  cases gate : gateWait now state.windows.cooldownUntil with
  | some d =>
      refine ⟨some d, _, acquireOnce_cooling gate, ⟨nofun, fun gates => ?_⟩,
        enforced.wait ahead still (fun ending inside => ?_) loop d⟩
      · rw [gates.1] at gate
        cases gate
      · rcases enforced.cooling ending inside with before | later
        · exact .inl (Nat.le_trans before ahead)
        · exact .inr later
  | none =>
      have cool := enforced.cool ahead gate
      by_cases gates : OpenGates pace now state.windows
      · have kept : Kept specs now state.grants (prune now state.windows) := by
          rw [← enforced.fixed] at still ⊢
          exact still.prune past
        obtain ⟨wait, waits, rooms⟩ := enforced.rooms positive past kept
        cases wait with
        | some d =>
            refine ⟨some d, _, acquireOnce_refused gates waits, ⟨nofun, ?_⟩,
              enforced.wait ahead kept (fun ending inside => .inl (cool ending inside)) loop d⟩
            rintro - _ ⟨⟩
            exact ⟨(rooms d).mp (Nat.le_refl _), fun other enough => (rooms other).mpr enough⟩
        | none =>
            exact ⟨none, _, acquireOnce_sent gates waits, ⟨fun _ => cool, nofun⟩,
              enforced.send ahead kept cool ((rooms 0).mp (Nat.le_refl _)) loop⟩
      · obtain ⟨d, paced⟩ := acquireOnce_paced gapMs gate gates
        exact ⟨some d, _, paced, ⟨nofun, fun opened => (gates opened).elim⟩,
          enforced.wait ahead still (fun ending inside => .inl (cool ending inside)) loop d⟩

/-- A window that admits nothing fails the iteration that looks at it. -/
theorem windowWaits_zero {sent : List Nat} {specs : List WindowSpec} {spec : WindowSpec}
    (among : spec ∈ specs) (zero : spec.limit = 0) (wait : Option Nat) :
    specs.foldlM (windowWait now sent) wait = none := by
  induction specs generalizing wait with
  | nil => cases among
  | cons first specs ih =>
      rw [List.foldlM_cons]
      rcases List.mem_cons.mp among with rfl | among
      · have fails : windowWait now sent wait spec = none := by
          rw [windowWait, zero, if_pos (Nat.zero_le _), Nat.sub_zero,
            List.getElem?_eq_none (Nat.le_refl _)]
          rfl
        rw [fails]
        rfl
      · cases windowWait now sent wait first with
        | none => rfl
        | some wait => exact ih among wait

/-- An iteration that does not fail, whatever the limits. -/
theorem iterated (enforced : Enforced specs state) (ahead : state.clock ≤ now) {gapMs : Nat}
    {wait : Option Nat} {windows : Windows}
    (done : acquireOnce pace now gapMs state.windows = some (wait, windows)) (loop : Nat) :
    Enforced specs (state.iterated loop now windows wait) := by
  by_cases positive : ∀ spec ∈ specs, 1 ≤ spec.limit
  · obtain ⟨_, _, here, -, after⟩ := enforced.iterate positive ahead pace gapMs loop
    rw [done] at here
    cases here
    exact after
  · push Not at positive
    obtain ⟨spec, among, zero⟩ := positive
    rw [← enforced.fixed] at among
    have still := enforced.kept.later ahead
    cases gate : gateWait now state.windows.cooldownUntil with
    | some d =>
        rw [acquireOnce_cooling gate] at done
        cases done
        refine enforced.wait ahead still (fun ending inside => ?_) loop d
        rcases enforced.cooling ending inside with before | later
        · exact .inl (Nat.le_trans before ahead)
        · exact .inr later
    | none =>
        by_cases gates : OpenGates pace now state.windows
        · rw [acquireOnce_failed gates (windowWaits_zero among (by omega) none)] at done
          cases done
        · obtain ⟨d, paced⟩ := acquireOnce_paced gapMs gate gates
          rw [paced] at done
          cases done
          have cool := enforced.cool ahead gate
          exact enforced.wait ahead still (fun ending inside => .inl (cool ending inside)) loop d

/-- A cooldown is kept unless a longer one is. -/
theorem cooldown (enforced : Enforced specs state) (ahead : state.clock ≤ now) (secs : Nat) :
    Enforced specs
      { state with
        windows := Node.cooldown now secs state.windows
        clock := now
        cooldowns := state.cooldowns ++ [now + fromSecs secs] } := by
  have rest : (Node.cooldown now secs state.windows).specs = state.windows.specs ∧
      (Node.cooldown now secs state.windows).sent = state.windows.sent := by
    simp only [Node.cooldown]
    split
    · exact ⟨rfl, rfl⟩
    · exact ⟨rfl, rfl⟩
  have longest : ∃ deadline, (Node.cooldown now secs state.windows).cooldownUntil = some deadline ∧
      now + fromSecs secs ≤ deadline ∧
      ∀ other, state.windows.cooldownUntil = some other → other ≤ deadline := by
    simp only [Node.cooldown]
    split
    · next shorter =>
        refine ⟨_, rfl, Nat.le_refl _, fun other held => ?_⟩
        rw [held, Option.all_some, decide_eq_true_eq] at shorter
        exact Nat.le_of_lt shorter
    · next longer =>
        cases held : state.windows.cooldownUntil with
        | none =>
            rw [held] at longer
            exact (longer rfl).elim
        | some deadline =>
            rw [held, Option.all_some, decide_eq_true_eq, Nat.not_lt] at longer
            refine ⟨deadline, rfl, longer, ?_⟩
            rintro _ ⟨⟩
            exact Nat.le_refl _
  obtain ⟨deadline, held, enough, others⟩ := longest
  refine ⟨rest.1.trans enforced.fixed, enforced.ordered,
    fun time inside => Nat.le_trans (enforced.past time inside) ahead, ?_, enforced.capped,
    fun ending inside => ?_, enforced.counted⟩
  · rw [rest.2]
    exact enforced.kept.later ahead
  · rcases List.mem_append.mp inside with inside | same
    · rcases enforced.cooling ending inside with before | ⟨other, there, later⟩
      · exact .inl (Nat.le_trans before ahead)
      · exact .inr ⟨deadline, held, Nat.le_trans later (others other there)⟩
    · rw [List.mem_singleton.mp same]
      exact .inr ⟨deadline, held, enough⟩

/-- **One step** keeps the windows enforced. -/
theorem step {event : Event} {next : Limiter} (positive : ∀ spec ∈ specs, 1 ≤ spec.limit)
    (enforced : Enforced specs state) (step : LimiterStep pace state event next) :
    Enforced specs next := by
  cases event with
  | iterate loop now gapMs =>
      obtain ⟨ahead, -, wait, windows, done, rfl⟩ := step
      obtain ⟨_, _, here, -, after⟩ := enforced.iterate positive ahead pace gapMs loop
      rw [done] at here
      cases here
      exact after
  | cooldown now secs =>
      obtain ⟨ahead, rfl⟩ := step
      exact enforced.cooldown ahead secs

/-- A new limiter enforces its windows. -/
theorem new (specs : List WindowSpec) : Enforced specs (.new specs) :=
  ⟨rfl, .nil, nofun, ⟨[], rfl, nofun⟩, fun _ _ _ => Nat.zero_le _, nofun, rfl⟩

end Enforced

/-- **Sliding windows.** In every state of every run the sends of each window are within its
limit. The next iteration, whichever loop makes it and whenever, sends only after every cooldown,
and if only the windows refuse it, it waits for the least time in which all of them have room. -/
theorem sliding_windows (pace : Bool) {specs : List WindowSpec}
    (positive : ∀ spec ∈ specs, 1 ≤ spec.limit) {events : List Event} {state : Limiter}
    (run : Run (LimiterStep pace) (.new specs) events state) :
    (∀ spec ∈ specs, ∀ time, within spec.win time state.grants ≤ spec.limit) ∧
      ∀ now gapMs, state.clock ≤ now →
        ∃ wait windows, acquireOnce pace now gapMs state.windows = some (wait, windows) ∧
          Obeys specs pace state now wait := by
  have enforced : Enforced specs state :=
    run.invariant (Enforced specs) (fun _ _ _ held step => held.step positive step) (.new specs)
  refine ⟨enforced.capped, fun now gapMs ahead => ?_⟩
  obtain ⟨wait, windows, done, obeys, -⟩ := enforced.iterate positive ahead pace gapMs 0
  exact ⟨wait, windows, done, obeys⟩

def twoSpecs : List WindowSpec := [⟨1, 1⟩, ⟨2, 3⟩]

/-- A limiter that has sent one request, and is over its cooldown. -/
def sentOnce : Limiter where
  windows := ⟨twoSpecs, [5], some 7, some 5⟩
  sentTotal := 1
  loops := Function.update (fun _ => .started) 0 .returned
  clock := 7
  grants := [5]
  cooldowns := [7]

/-- The window of one millisecond refuses, until the first request has left it. -/
theorem sliding_windows_refused :
    Run (LimiterStep true) (.new twoSpecs) [.iterate 0 5 0, .cooldown 7 0] sentOnce ∧
      acquireOnce true 7 0 sentOnce.windows = some (some 999998, ⟨twoSpecs, [5], none, some 5⟩) ∧
      Obeys twoSpecs true sentOnce 7 (some 999998) := by
  have run : Run (LimiterStep true) (.new twoSpecs) [.iterate 0 5 0, .cooldown 7 0] sentOnce := by
    refine .cons ⟨Nat.zero_le _, rfl, none, ⟨twoSpecs, [5], none, some 5⟩, by decide, rfl⟩
      (.cons ⟨by decide, rfl⟩ (.nil _))
  have refused : acquireOnce true 7 0 sentOnce.windows =
      some (some 999998, ⟨twoSpecs, [5], none, some 5⟩) := by decide
  obtain ⟨wait, windows, done, obeys⟩ := (sliding_windows true (by decide) run).2 7 0 (by decide)
  rw [refused] at done
  cases done
  exact ⟨run, refused, obeys⟩

end LolCrawler.Node
