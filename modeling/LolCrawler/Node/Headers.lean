import Mathlib.Algebra.Ring.Nat
import LolCrawler.Node.Executor

/-! # What headers do to a limiter

The windows and the cooldowns of a limiter come from the headers of a remote server. Here
the arithmetic of `acquire` and `cooldown` is that of the code: an index can be out of
bounds, and instants and durations can overflow. A panic ends the call.

An instant counts seconds in 64 bits with a sign, a duration counts them without. A
header holds visible ASCII characters, blanks and tabs.
-/

namespace LolCrawler.Node

open Foundation

/-! ## Parsing -/

/-- `str::parse` for an unsigned number of so many bits: an optional sign, and digits. -/
def parseUnsigned (bits : Nat) (text : List Char) : Option Nat :=
  let digits := match text with
    | '+' :: rest => rest
    | _ => text
  let value := digits.foldl (fun value digit => 10 * value + (digit.toNat - '0'.toNat)) 0
  if !digits.isEmpty && digits.all Char.isDigit && value < 2 ^ bits then some value else none

/-- `str::trim` -/
def trim (text : List Char) : List Char :=
  ((text.dropWhile Char.isWhitespace).reverse.dropWhile Char.isWhitespace).reverse

/-- `str::split_once` at a colon -/
def splitOnce (text : List Char) : Option (List Char × List Char) :=
  match text.span (· ≠ ':') with
  | (_, []) => none
  | (limit, _ :: secs) => some (limit, secs)

def parseLimit (part : List Char) : Option WindowSpec := do
  let (limit, secs) ← splitOnce (trim part)
  let limit ← parseUnsigned 32 (trim limit)
  let secs ← parseUnsigned 64 (trim secs)
  if secs * 1000 < 2 ^ 64 then some ⟨limit, secs * 1000⟩ else none

/-- Parses a Riot rate-limit header, as in `20:1,100:120`. -/
def parseLimitHeader (s : String) : List WindowSpec :=
  (s.toList.splitOn ',').filterMap parseLimit

example : parseLimitHeader "20:1,100:120" = defaultSpecs := by decide +kernel

/-- A window that is parsed is a `u64`. -/
theorem parseLimit_lt {part : List Char} {spec : WindowSpec}
    (parsed : parseLimit part = some spec) :
    spec.windowMs < 2 ^ 64 := by
  simp only [parseLimit, Option.bind_eq_bind, Option.bind_eq_some_iff] at parsed
  obtain ⟨_, -, _, -, secs, -, parsed⟩ := parsed
  split at parsed
  · next small =>
      cases parsed
      exact small
  · cases parsed

/-! ## Checked arithmetic -/

inductive Panic where
  /-- An index out of bounds. -/
  | index
  | overflow
deriving DecidableEq

/-- The end of time. -/
def instantBound : Nat := 2 ^ 63 * 1000000000

def durationBound : Nat := 2 ^ 64 * 1000000000

abbrev Instant := { time : Nat // time < instantBound }

/-- `Instant + Duration` -/
def addInstant (now d : Nat) : Except Panic Nat :=
  if now + d < instantBound then .ok (now + d) else .error .overflow

/-- `Duration + Duration` -/
def addDuration (d other : Nat) : Except Panic Nat :=
  if d + other < durationBound then .ok (d + other) else .error .overflow

/-- One pass of the loop over the windows. -/
def windowWaitChecked (now : Nat) (sent : List Nat) (wait : Option Nat) (spec : WindowSpec) :
    Except Panic (Option Nat) :=
  if spec.limit ≤ inWindow now sent spec then
    if sent.length < spec.limit then .error .overflow
    else
      match sent[sent.length - spec.limit]? with
      | none => .error .index
      | some nthNewest =>
          let d := spec.win - (now - nthNewest)
          .ok (some (wait.elim d fun cur => max cur d))
  else .ok wait

/-- The call sleeps a little longer than the wait. -/
def sleep (d : Nat) (w : Windows) : Except Panic (Option Nat × Windows) :=
  (addDuration d (fromMillis 5)).map fun _ => (some d, w)

/-- The next slot of a pacer. -/
def paceSlot (pace : Bool) (now gapMs : Nat) (slot : Option Nat) : Except Panic (Option Nat) :=
  if pace then (addInstant now (fromMillis gapMs)).map some else .ok slot

/-- After the loop over the windows: a send, or a wait. -/
def sendOrSleep (pace : Bool) (now gapMs : Nat) (w : Windows) :
    Option Nat → Except Panic (Option Nat × Windows)
  | some d => sleep d w
  | none =>
      (paceSlot pace now gapMs w.nextSlot).map fun slot =>
        (none, { w with sent := w.sent ++ [now], nextSlot := slot })

/-- One iteration of `acquire`, and what it panics with. -/
def acquireChecked (pace : Bool) (now gapMs : Nat) (w : Windows) :
    Except Panic (Option Nat × Windows) :=
  match gateWait now w.cooldownUntil with
  | some wait => sleep wait w
  | none =>
      let w := { w with cooldownUntil := none }
      match if pace then gateWait now w.nextSlot else none with
      | some wait => sleep wait w
      | none => do
          let w := { w with sent := prune now w }
          let wait ← w.specs.foldlM (windowWaitChecked now w.sent) none
          sendOrSleep pace now gapMs w wait

/-- Called on a 429. -/
def cooldownChecked (now secs : Nat) (w : Windows) : Except Panic Windows :=
  (addInstant now (fromSecs secs)).map fun _ => cooldown now secs w

inductive HeaderEvent where
  | iterate (now : Instant) (gapMs : UInt64)
  /-- An answer with the windows in a header. -/
  | limits (header : String)
  /-- A 429, with the value of `Retry-After`. -/
  | tooMany (now : Instant) (retryAfter : Option String)

/-- For how many seconds a 429 blocks. -/
def retrySecs (retryAfter : Option String) : Nat :=
  (retryAfter.bind fun value => parseUnsigned 64 value.toList).getD 10

def HeaderEvent.apply (pace : Bool) (w : Windows) : HeaderEvent → Except Panic Windows
  | .iterate now gapMs => (acquireChecked pace now gapMs.toNat w).map Prod.snd
  | .limits header => .ok (updateSpecs (parseLimitHeader header) w)
  | .tooMany now retryAfter => cooldownChecked now (retrySecs retryAfter) w

/-- The windows after these events, unless one panics. -/
def applyAll (pace : Bool) (w : Windows) (events : List HeaderEvent) : Except Panic Windows :=
  events.foldlM (HeaderEvent.apply pace) w

/-! ## What panics -/

/-- Every window has room for another send. -/
def Roomy (now : Nat) (sent : List Nat) (specs : List WindowSpec) : Prop :=
  ∀ spec ∈ specs, inWindow now sent spec < spec.limit

/-- The event finds no limit of zero behind open gates, and ends before the end of time. -/
def HeaderEvent.Harmless (pace : Bool) (w : Windows) : HeaderEvent → Prop
  | .iterate now gapMs =>
      OpenGates pace now w →
        (∀ spec ∈ w.specs, 1 ≤ spec.limit) ∧
          (pace = true → Roomy now (prune now w) w.specs →
            now.val + fromMillis gapMs.toNat < instantBound)
  | .limits _ => True
  | .tooMany now retryAfter => now.val + fromSecs (retrySecs retryAfter) < instantBound

/-- Whatever is in the windows is small enough for a sum to be a duration. -/
structure Bounded (w : Windows) : Prop where
  specs : ∀ spec ∈ w.specs, spec.windowMs < 2 ^ 64
  cooldown : ∀ opens, w.cooldownUntil = some opens → opens < instantBound
  slot : ∀ opens, w.nextSlot = some opens → opens < instantBound

/-- A window has no more sends than there are. -/
theorem inWindow_le (now : Nat) (sent : List Nat) (spec : WindowSpec) :
    inWindow now sent spec ≤ sent.length := by
  rw [inWindow]
  exact Nat.le_trans (List.takeWhile_sublist _).length_le (Nat.le_of_eq List.length_reverse)

/-- A sleep that fits does not panic. -/
theorem sleep_ok {d : Nat} (small : d < instantBound) (w : Windows) :
    sleep d w = .ok (some d, w) := by
  rw [instantBound] at small
  rw [sleep, addDuration, if_pos]
  · rfl
  · rw [fromMillis, durationBound]
    omega

/-- A gate that is closed opens at an instant. -/
theorem gateWait_lt {now d : Nat} {gate : Option Nat}
    (small : ∀ opens, gate = some opens → opens < instantBound)
    (closed : gateWait now gate = some d) : d < instantBound := by
  cases gate with
  | none => cases closed
  | some opens =>
      have before := small opens rfl
      rw [gateWait, Option.bind_some] at closed
      split at closed
      · cases closed
        omega
      · cases closed

/-- No sleep is short. -/
theorem none_short (bound : Nat) : ∀ d, (none : Option Nat) = some d → d < bound := nofun

section Windows

variable (now : Nat) (sent : List Nat)

/-- A positive limit keeps the index in bounds. -/
theorem windowWaitChecked_spec {spec : WindowSpec} (positive : 1 ≤ spec.limit)
    (small : spec.windowMs < 2 ^ 64) {wait : Option Nat}
    (short : ∀ d, wait = some d → d < instantBound) :
    ∃ wait', windowWaitChecked now sent wait spec = .ok wait' ∧
      windowWait now sent wait spec = some wait' ∧
      (wait' = none ↔ wait = none ∧ inWindow now sent spec < spec.limit) ∧
      ∀ d, wait' = some d → d < instantBound := by
  have fewer := inWindow_le now sent spec
  rw [windowWaitChecked, windowWait]
  by_cases full : spec.limit ≤ inWindow now sent spec
  · have bound : sent.length - spec.limit < sent.length := by omega
    have nth := List.getElem?_eq_getElem bound
    have win : spec.win < instantBound := by
      rw [WindowSpec.win, fromMillis, instantBound]
      omega
    rw [if_pos full, if_pos full, if_neg (by omega), nth]
    refine ⟨_, rfl, rfl, ⟨fun same => (Option.some_ne_none _ same).elim,
      fun room => by omega⟩, fun d here => ?_⟩
    cases wait with
    | none =>
        cases here
        simp only [Option.elim]
        omega
    | some cur =>
        have before := short cur rfl
        cases here
        simp only [Option.elim]
        omega
  · rw [if_neg full, if_neg full]
    exact ⟨wait, rfl, rfl, ⟨fun same => ⟨same, by omega⟩, And.left⟩, short⟩

/-- **The loop over the windows.** Positive limits let it end. -/
theorem windowWaitsChecked_spec {specs : List WindowSpec}
    (positive : ∀ spec ∈ specs, 1 ≤ spec.limit) (small : ∀ spec ∈ specs, spec.windowMs < 2 ^ 64)
    {wait : Option Nat} (short : ∀ d, wait = some d → d < instantBound) :
    ∃ wait', specs.foldlM (windowWaitChecked now sent) wait = .ok wait' ∧
      specs.foldlM (windowWait now sent) wait = some wait' ∧
      (wait' = none ↔ wait = none ∧ Roomy now sent specs) ∧
      ∀ d, wait' = some d → d < instantBound := by
  induction specs generalizing wait with
  | nil => exact ⟨wait, rfl, rfl, ⟨fun same => ⟨same, nofun⟩, And.left⟩, short⟩
  | cons spec specs ih =>
      rw [List.forall_mem_cons] at positive small
      obtain ⟨first, one, same, room, shorter⟩ :=
        windowWaitChecked_spec now sent positive.1 small.1 short
      obtain ⟨rest, all, equal, rooms, shortest⟩ := ih positive.2 small.2 shorter
      refine ⟨rest, ?_, ?_, ?_, shortest⟩
      · rw [List.foldlM_cons, one]
        exact all
      · rw [List.foldlM_cons, same]
        exact equal
      · rw [rooms, room, and_assoc, Roomy, Roomy, List.forall_mem_cons]

/-- A limit of zero puts the index behind the last send. -/
theorem windowWaitsChecked_zero {specs : List WindowSpec} (zero : ¬ ∀ spec ∈ specs, 1 ≤ spec.limit)
    (wait : Option Nat) :
    ∃ panic, specs.foldlM (windowWaitChecked now sent) wait = .error panic := by
  induction specs generalizing wait with
  | nil => exact (zero nofun).elim
  | cons spec specs ih =>
      rw [List.foldlM_cons]
      cases first : windowWaitChecked now sent wait spec with
      | error panic => exact ⟨panic, rfl⟩
      | ok rest =>
          by_cases positive : 1 ≤ spec.limit
          · apply ih
            intro others
            exact zero (List.forall_mem_cons.mpr ⟨positive, others⟩)
          · have none : spec.limit = 0 := by omega
            have past : sent[sent.length - spec.limit]? = .none := by
              rw [none]
              exact List.getElem?_eq_none (Nat.le_refl _)
            rw [windowWaitChecked, if_pos (by omega), if_neg (by omega), past] at first
            cases first

end Windows

namespace Bounded

variable {w : Windows} {pace : Bool} {now : Instant} {gapMs : UInt64}

/-- Windows that are declared are bounded. -/
theorem new {specs : List WindowSpec} (small : ∀ spec ∈ specs, spec.windowMs < 2 ^ 64) :
    Bounded (.new specs) :=
  ⟨small, nofun, nofun⟩

/-- A send leaves the windows bounded. -/
theorem sent (bounded : Bounded w) (sent : List Nat) :
    Bounded { w with cooldownUntil := none, sent := sent } :=
  ⟨bounded.specs, nofun, bounded.slot⟩

/-- Behind open gates the windows decide. -/
theorem acquireChecked_open (gates : OpenGates pace now w) :
    acquireChecked pace now gapMs.toNat w =
      (w.specs.foldlM (windowWaitChecked now (prune now w)) none).bind
        (sendOrSleep pace now gapMs.toNat
          { w with cooldownUntil := none, sent := prune now w }) := by
  simp only [acquireChecked, gates.1, gates.paced]
  rfl

/-- A send panics when the next slot is behind the end of time. -/
theorem paceSlot_spec (bounded : Bounded w) :
    ((pace = true → now.val + fromMillis gapMs.toNat < instantBound) →
      ∃ slot, paceSlot pace now gapMs.toNat w.nextSlot = .ok slot ∧
        slot = (if pace then some (now.val + fromMillis gapMs.toNat) else w.nextSlot) ∧
        ∀ opens, slot = some opens → opens < instantBound) ∧
      (¬ (pace = true → now.val + fromMillis gapMs.toNat < instantBound) →
        ∃ panic, paceSlot pace now gapMs.toNat w.nextSlot = .error panic) := by
  cases pace with
  | false => exact ⟨fun _ => ⟨_, rfl, rfl, bounded.slot⟩, fun late => (late nofun).elim⟩
  | true =>
      rw [paceSlot, if_pos rfl, addInstant]
      by_cases soon : now.val + fromMillis gapMs.toNat < instantBound
      · rw [if_pos soon]
        refine ⟨fun _ => ⟨_, rfl, rfl, ?_⟩, fun late => (late fun _ => soon).elim⟩
        rintro _ ⟨⟩
        exact soon
      · rw [if_neg soon]
        exact ⟨fun early => (soon (early rfl)).elim, fun _ => ⟨_, rfl⟩⟩

/-- **One iteration.** It panics exactly when it is not harmless, and is `acquireOnce`
otherwise. -/
theorem iterate (bounded : Bounded w) :
    (HeaderEvent.Harmless pace w (.iterate now gapMs) →
      ∃ wait next, acquireChecked pace now gapMs.toNat w = .ok (wait, next) ∧
        acquireOnce pace now gapMs.toNat w = some (wait, next) ∧ Bounded next) ∧
      (¬ HeaderEvent.Harmless pace w (.iterate now gapMs) →
        ∃ panic, acquireChecked pace now gapMs.toNat w = .error panic) := by
  cases gate : gateWait now w.cooldownUntil with
  | some d =>
      have closed : ¬ OpenGates pace now w := fun gates => by
        rw [gates.1] at gate
        cases gate
      refine ⟨fun _ => ⟨some d, w, ?_, acquireOnce_cooling gate, bounded⟩, fun harm => ?_⟩
      · rw [acquireChecked, gate]
        exact sleep_ok (gateWait_lt bounded.cooldown gate) w
      · exact (harm fun gates => (closed gates).elim).elim
  | none =>
      by_cases gates : OpenGates pace now w
      · have opened := @acquireChecked_open w pace now gapMs gates
        by_cases positive : ∀ spec ∈ w.specs, 1 ≤ spec.limit
        · obtain ⟨wait, waits, same, room, short⟩ := windowWaitsChecked_spec now.val
            (prune now w) positive bounded.specs (none_short instantBound)
          rw [waits] at opened
          cases wait with
          | some d =>
              have full : ¬ Roomy now (prune now w) w.specs := fun roomy => by
                cases room.mpr ⟨rfl, roomy⟩
              refine ⟨fun _ => ⟨some d, _, ?_, acquireOnce_refused gates same,
                bounded.sent (prune now w)⟩, fun harm => ?_⟩
              · rw [opened, Except.bind, sendOrSleep]
                exact sleep_ok (short d rfl) _
              · exact (harm fun _ => ⟨positive, fun _ roomy => (full roomy).elim⟩).elim
          | none =>
              have roomy := (room.mp rfl).2
              obtain ⟨early, late⟩ := @paceSlot_spec w pace now gapMs bounded
              constructor
              · intro harmless
                obtain ⟨slot, paced, equal, soon⟩ :=
                  early fun on => (harmless gates).2 on roomy
                refine ⟨none, { w with
                  cooldownUntil := none
                  sent := prune now w ++ [now.val]
                  nextSlot := slot }, ?_, ?_, bounded.specs, nofun, soon⟩
                · rw [opened, Except.bind, sendOrSleep, paced]
                  rfl
                · rw [acquireOnce_sent gates same, equal]
              · intro harm
                obtain ⟨panic, behind⟩ := late fun soon =>
                  harm fun _ => ⟨positive, fun on _ => soon on⟩
                refine ⟨panic, ?_⟩
                rw [opened, Except.bind, sendOrSleep, behind]
                rfl
        · obtain ⟨panic, fails⟩ :=
            windowWaitsChecked_zero now.val (prune now w) positive none
          rw [fails] at opened
          exact ⟨fun harmless => (positive (harmless gates).1).elim, fun _ => ⟨panic, opened⟩⟩
      · obtain ⟨d, paced⟩ := acquireOnce_paced gapMs.toNat gate gates
        refine ⟨fun _ => ⟨some d, _, ?_, paced, bounded.sent w.sent⟩, fun harm => ?_⟩
        · cases pace with
          | false => exact (gates ⟨gate, nofun⟩).elim
          | true =>
              cases slot : gateWait now w.nextSlot with
              | none => exact (gates ⟨gate, fun _ => slot⟩).elim
              | some wait =>
                  simp only [acquireOnce, gate, slot, ↓reduceIte] at paced
                  cases paced
                  simp only [acquireChecked, gate, slot, ↓reduceIte]
                  exact sleep_ok (gateWait_lt bounded.slot slot) _
        · exact (harm fun opened => (gates opened).elim).elim

/-- Windows that are adopted are bounded. -/
theorem limits (bounded : Bounded w) (header : String) :
    Bounded (updateSpecs (parseLimitHeader header) w) := by
  rw [updateSpecs]
  split
  · exact bounded
  · split
    · exact bounded
    · refine ⟨fun spec inside => ?_, bounded.cooldown, bounded.slot⟩
      obtain ⟨part, -, parsed⟩ := List.mem_filterMap.mp inside
      exact parseLimit_lt parsed

/-- A cooldown that fits leaves the windows bounded. -/
theorem cooled (bounded : Bounded w) {secs : Nat} (soon : now.val + fromSecs secs < instantBound) :
    Bounded (Node.cooldown now secs w) := by
  simp only [Node.cooldown]
  split
  · refine ⟨bounded.specs, ?_, bounded.slot⟩
    rintro _ ⟨⟩
    exact soon
  · exact bounded

/-- **Each event** that is harmless keeps the windows bounded, and any other panics. -/
theorem apply (bounded : Bounded w) (event : HeaderEvent) :
    (event.Harmless pace w → ∃ next, event.apply pace w = .ok next ∧ Bounded next) ∧
      (¬ event.Harmless pace w → ∃ panic, event.apply pace w = .error panic) := by
  cases event with
  | iterate now gapMs =>
      obtain ⟨fine, panics⟩ := @iterate w pace now gapMs bounded
      constructor
      · intro harmless
        obtain ⟨wait, next, done, -, after⟩ := fine harmless
        exact ⟨next, by rw [HeaderEvent.apply, done]; rfl, after⟩
      · intro harm
        obtain ⟨panic, fails⟩ := panics harm
        exact ⟨panic, by rw [HeaderEvent.apply, fails]; rfl⟩
  | limits header =>
      exact ⟨fun _ => ⟨_, rfl, bounded.limits header⟩, fun harm => (harm trivial).elim⟩
  | tooMany now retryAfter =>
      rw [HeaderEvent.apply, cooldownChecked, addInstant, HeaderEvent.Harmless]
      constructor
      · intro soon
        rw [if_pos soon]
        exact ⟨_, rfl, bounded.cooled soon⟩
      · intro late
        rw [if_neg late]
        exact ⟨_, rfl⟩

/-- A run, by its first event. -/
theorem applyAll (bounded : Bounded w) (events : List HeaderEvent) :
    (∃ final, Node.applyAll pace w events = .ok final) ↔
      ∀ before event later, events = before ++ event :: later →
        ∀ reached, Node.applyAll pace w before = .ok reached → event.Harmless pace reached := by
  induction events generalizing w with
  | nil =>
      refine ⟨fun _ before event later same => ?_, fun _ => ⟨w, rfl⟩⟩
      cases (List.nil_eq_append_iff.mp same).2
  | cons event events ih =>
      obtain ⟨fine, panics⟩ := @apply w pace bounded event
      by_cases harmless : event.Harmless pace w
      · obtain ⟨next, done, after⟩ := fine harmless
        have onward : ∀ others,
            Node.applyAll pace w (event :: others) = Node.applyAll pace next others := by
          intro others
          rw [Node.applyAll, List.foldlM_cons, done]
          rfl
        have tail := ih after
        rw [onward, tail]
        constructor
        · intro rest before other later same reached here
          cases before with
          | nil =>
              cases same
              cases here
              exact harmless
          | cons first before =>
              rw [List.cons_append, List.cons.injEq] at same
              obtain ⟨rfl, same⟩ := same
              rw [onward] at here
              exact rest before other later same reached here
        · intro whole before other later same reached here
          refine whole (event :: before) other later (by rw [same]; rfl) reached ?_
          rw [onward]
          exact here
      · obtain ⟨panic, fails⟩ := panics harmless
        refine ⟨fun ⟨final, done⟩ => ?_, fun all => (harmless (all [] event events rfl w rfl)).elim⟩
        rw [Node.applyAll, List.foldlM_cons, fails] at done
        cases done

end Bounded

/-- **Headers and panics.** A run of a limiter panics nowhere exactly when each of its events is
harmless where it comes. -/
theorem headers_crash_iff (pace : Bool) (events : List HeaderEvent) :
    (∃ w, applyAll pace (.new defaultSpecs) events = .ok w) ↔
      ∀ before event later, events = before ++ event :: later →
        ∀ w, applyAll pace (.new defaultSpecs) before = .ok w → event.Harmless pace w :=
  (Bounded.new (by decide)).applyAll events

def startOfTime : Instant := ⟨0, by decide⟩

/-- The first iteration after a limit of zero looks behind the last send, and a server can ask
for a cooldown without an end. -/
theorem headers_crash :
    applyAll true (.new defaultSpecs) [.limits "0:10", .iterate startOfTime 0] = .error .index ∧
      applyAll true (.new defaultSpecs) [.tooMany startOfTime (some "18446744073709551615")] =
        .error .overflow := by
  constructor
  · decide +kernel
  · decide +kernel

end LolCrawler.Node
