import LolCrawler.Broker.Fetches

/-! # Shutting down

`fetch` tests the shutdown flag before it takes the lock, and `shutdown` raises the
flag before it takes the lock. The two are steps of their own here, so any of the
other calls may come between them. A fetch that tested the flag in time may enter its
job after the jobs were drained (`Gate.Late`), and then nobody resolves it.
-/

namespace LolCrawler

open Foundation

namespace Broker

/-- One job leaves the table, and its fetch fails. -/
def drainJob (broker : Broker) (id : Nat) : Broker :=
  match broker.jobs id with
  | none => broker
  | some job => (broker.removeJob id).send job.responder (.error "server shutting down")

/-- The locked part of `shutdown`, over the jobs in the order the map yields them. -/
def drain (broker : Broker) (order : List Nat) : Broker :=
  { order.foldl drainJob broker with queues := fun _ => none, audits := fun _ => none }

/-- No job is left. -/
def Empty (broker : Broker) : Prop := ∀ id, broker.jobs id = none

/-- Every fetch has been resolved. -/
def Resolved (broker : Broker) : Prop :=
  ∀ channel ∈ broker.fetches, broker.channels channel ≠ none

variable {broker : Broker}

/-- A job that is drained leaves the broker sound. -/
theorem drainJob_sound (sound : Sound broker []) (id : Nat) : Sound (broker.drainJob id) [] := by
  unfold drainJob
  cases live : broker.jobs id with
  | none => exact sound
  | some job =>
      simp only
      refine sound.removeJob live (send_jobs ..) (send_queues ..) (send_nextId ..) (send_fetches ..)
        ?_ fun channel => send_silent _ _ _ channel
      intro primary silent
      rw [sound.responder _ _ live, primary] at silent
      exact nomatch (send_resolves (broker.removeJob id) id _).symm.trans silent

/-- A job that is drained is gone. -/
theorem drainJob_jobs (broker : Broker) (id : Nat) :
    (broker.drainJob id).jobs = Function.update broker.jobs id none := by
  unfold drainJob
  cases live : broker.jobs id with
  | none => exact (Function.update_eq_self_iff.mpr live.symm).symm
  | some job => rw [send_jobs, removeJob_jobs]

/-- Jobs that are drained are gone, and the others stay. -/
theorem drainAll_jobs (order : List Nat) (broker : Broker) (id : Nat) :
    (order.foldl drainJob broker).jobs id = if id ∈ order then none else broker.jobs id := by
  induction order generalizing broker with
  | nil => simp
  | cons first order ih =>
      rw [List.foldl_cons, ih, drainJob_jobs]
      by_cases same : id = first
      · simp [same]
      · simp [same]

/-- A broker that is drained is empty. -/
theorem drain_empty {order : List Nat}
    (all : Enumerates order fun id => (broker.jobs id).isSome) : (broker.drain order).Empty := by
  intro id
  show (order.foldl drainJob broker).jobs id = none
  rw [drainAll_jobs]
  split
  · rfl
  · next outside =>
      rw [all.2 id, Option.not_isSome_iff_eq_none] at outside
      exact outside

/-- A broker that is drained is sound. -/
theorem drain_sound {order : List Nat} (sound : Sound broker [])
    (all : Enumerates order fun id => (broker.jobs id).isSome) : Sound (broker.drain order) [] := by
  have drained : Sound (order.foldl drainJob broker) [] :=
    List.foldlRecOn order drainJob (motive := fun current => Sound current []) sound
      fun _ invariant id _ => drainJob_sound invariant id
  have empty := drain_empty all
  refine ⟨fun id job live => ?_, fun id job live => ?_, fun id job _ live => ?_,
    fun id job live => ?_, fun id job live => ?_, drained.pending⟩
  all_goals
    rw [empty id] at live
    cases live

/-- A consistent broker without jobs has no fetch waiting. -/
theorem Sound.resolved (sound : Sound broker []) (empty : broker.Empty) : broker.Resolved := by
  intro channel opened silent
  obtain ⟨job, live, _⟩ := sound.pending channel opened silent
  rw [empty channel] at live
  cases live

/-- A poll of an empty broker leaves it empty. -/
theorem takeJobs_empty (poll : Poll) (hosts : List String) (empty : broker.Empty) :
    (broker.takeJobs poll hosts).1.Empty := by
  have leased : ∀ (auditPossible : Bool) (picked : List Nat) (dispatch : Dispatch),
      dispatch.broker.Empty → picked.foldl (leaseJob poll auditPossible) dispatch = dispatch := by
    intro auditPossible picked dispatch none
    induction picked with
    | nil => rfl
    | cons id picked ih => rw [List.foldl_cons, leaseJob, none id, ih]
  have dispatched := List.foldlRecOn hosts
    (takeHost poll (broker.registry.activeNodeOtherThan poll.node poll.activeNow))
    (motive := fun dispatch => dispatch.broker.Empty ∧ dispatch.newTwins = [])
    (b := { broker := broker, out := [], newTwins := [] }) ⟨empty, rfl⟩
    fun dispatch invariant host _ => by
      unfold takeHost
      cases dispatch.broker.queues host with
      | none => exact invariant
      | some queue =>
          have unchanged := leased (broker.registry.activeNodeOtherThan poll.node poll.activeNow)
            (pick poll.node (targetInflightPerHost - poll.pending host) queue).1
            { dispatch with
              broker := dispatch.broker.setQueue host
                (pick poll.node (targetInflightPerHost - poll.pending host) queue).2 } invariant.1
          simp only [unchanged]
          exact invariant
  unfold takeJobs
  simp only [dispatched.2, List.foldl_nil]
  exact dispatched.1

/-- An answer to an empty broker changes nothing. -/
theorem complete_empty {Value : Type} [DecidableEq Value] (fromStr : String → Option Value)
    (node : Nat) (result : JobResult) (nowUnixMs : Nat) (empty : broker.Empty) :
    complete fromStr broker node result nowUnixMs = broker := by
  unfold complete
  rw [empty result.id]

/-- The sweeper has nothing to do in an empty broker. -/
theorem sweep_empty {now : Nat} {expired stale : List Nat} (empty : broker.Empty)
    (admissible : broker.Admissible (.sweep now expired stale)) :
    broker.sweep expired stale = broker := by
  have noneExpired : expired = [] := by
    apply List.eq_nil_iff_forall_not_mem.mpr
    intro id member
    obtain ⟨job, _, _, live, _⟩ := (admissible.1.2 id).mp member
    rw [empty id] at live
    cases live
  subst noneExpired
  have noneStale : stale = [] := by
    apply List.eq_nil_iff_forall_not_mem.mpr
    intro id member
    obtain ⟨job, live, _⟩ := (admissible.2.2 id).mp member
    rw [show (broker.releaseAll []).jobs id = none from empty id] at live
    cases live
  rw [noneStale]
  rfl

end Broker

/-- The broker with its flag. -/
structure Gate where
  broker : Broker
  /-- `shutdown` -/
  raised : Bool
  /-- Fetches that have tested the flag and not yet entered their job. -/
  passed : List (String × String × String)
  /-- Some call of `shutdown` has drained the jobs. -/
  drained : Bool

namespace Gate

def new : Gate := ⟨Broker.new, false, [], false⟩

/-- The steps of `fetch` and of `shutdown`, and the other calls. -/
inductive Event where
  | test (host method path : String)
  | enter (host method path : String) (now : Nat)
  | raise
  | drain (order : List Nat)
  | call (call : Call)

/-- A call with one step. -/
def atomic : Call → Prop
  | .fetch .. => False
  | _ => True

variable {Value : Type} [DecidableEq Value] (fromStr : String → Option Value)

/-- One step of any interleaving. A fetch that finds the flag raised fails at once. -/
inductive Step : Gate → Event → Gate → Prop where
  | refused {gate : Gate} {host method path : String} (raised : gate.raised = true) :
      Step gate (.test host method path) gate
  | passed {gate : Gate} {host method path : String} (open_ : gate.raised = false) :
      Step gate (.test host method path)
        { gate with passed := (host, method, path) :: gate.passed }
  | entered {gate : Gate} {host method path : String} {now : Nat}
      {before after : List (String × String × String)}
      (waits : gate.passed = before ++ (host, method, path) :: after) :
      Step gate (.enter host method path now)
        { gate with broker := gate.broker.fetch host method path now, passed := before ++ after }
  | raised {gate : Gate} : Step gate .raise { gate with raised := true }
  | drained {gate : Gate} {order : List Nat} (raised : gate.raised = true)
      (all : Enumerates order fun id => (gate.broker.jobs id).isSome) :
      Step gate (.drain order) { gate with broker := gate.broker.drain order, drained := true }
  | called {gate : Gate} {call : Call} {next : Broker} (atomic : atomic call)
      (step : Broker.Step fromStr gate.broker call next) :
      Step gate (.call call) { gate with broker := next }

/-- No fetch is waiting, and no job is left. -/
def Settled (gate : Gate) : Prop := gate.broker.Resolved ∧ gate.broker.Empty

/-- A fetch enters its job after the drain. -/
def Late (gate : Gate) : Event → Prop
  | .enter .. => gate.drained = true
  | _ => False

variable {gate next : Gate} {event : Event}

/-- **One step** keeps the broker sound behind its gate. -/
theorem step_keeps_sound (sound : Broker.Sound gate.broker [])
    (step : Step fromStr gate event next) :
    Broker.Sound next.broker [] := by
  cases step with
  | refused _ => exact sound
  | passed _ => exact sound
  | entered _ => exact Broker.fetch_sound sound _ _ _ _
  | raised => exact sound
  | drained _ all => exact Broker.drain_sound sound all
  | called _ step => exact Broker.step_sound fromStr sound step

/-- Once the jobs are drained, only a late fetch brings one back. -/
theorem step_keeps_empty (empty : gate.drained = true → gate.broker.Empty)
    (early : ¬ gate.Late event) (step : Step fromStr gate event next) :
    next.drained = true → next.broker.Empty := by
  intro drained
  cases step with
  | refused _ => exact empty drained
  | passed _ => exact empty drained
  | entered _ => exact (early drained).elim
  | raised => exact empty drained
  | drained _ all => exact Broker.drain_empty all
  | @called call _ atomic step =>
      obtain ⟨admissible, rfl⟩ := step
      have none := empty drained
      cases call with
      | fetch => exact atomic.elim
      | takeJobs poll hosts => exact Broker.takeJobs_empty poll hosts none
      | complete node result nowUnixMs =>
          show (Broker.complete fromStr gate.broker node result nowUnixMs).Empty
          rw [Broker.complete_empty fromStr node result nowUnixMs none]
          exact none
      | sweep now expired stale =>
          show (gate.broker.sweep expired stale).Empty
          rw [Broker.sweep_empty none admissible]
          exact none
      | enrollRuntime => exact none
      | touch => exact none

/-- A late fetch leaves a job that was not there. -/
theorem late_unsettled (late : gate.Late event) (step : Step fromStr gate event next) :
    ¬ next.Settled := by
  cases step with
  | entered _ =>
      intro settled
      have gone := settled.2 gate.broker.nextId
      rw [show ∀ host method path now, (gate.broker.fetch host method path now).jobs
        gate.broker.nextId = some _ from fun _ _ _ _ => Function.update_self ..] at gone
      cases gone
  | refused _ => exact late.elim
  | passed _ => exact late.elim
  | raised => exact late.elim
  | drained _ _ => exact late.elim
  | called _ _ => exact late.elim

/-- **Shutdown resolves every fetch that enters before the drain.** In every run without a late
fetch, once a call of `shutdown` has returned, every fetch is resolved and there is no job. The
condition is exact: from such a state, a step keeps it so if and only if it is no late fetch. -/
theorem settled_of_no_late {events : List Event}
    (run : Run (fun source event target => ¬ source.Late event ∧ Step fromStr source event target)
      new events gate) :
    (gate.drained = true → gate.Settled) ∧
      ∀ event next, Step fromStr gate event next → next.drained = true →
        (next.Settled ↔ ¬ gate.Late event) := by
  have both : Broker.Sound gate.broker [] ∧ (gate.drained = true → gate.broker.Empty) :=
    run.invariant
      (fun gate => Broker.Sound gate.broker [] ∧ (gate.drained = true → gate.broker.Empty))
      (fun _ _ _ held step => ⟨step_keeps_sound fromStr held.1 step.2,
        step_keeps_empty fromStr held.2 step.1 step.2⟩)
      ⟨Broker.sound_new, nofun⟩
  obtain ⟨sound, empty⟩ := both
  refine ⟨fun drained => ⟨sound.resolved (empty drained), empty drained⟩,
    fun event next step drained => ⟨fun settled late => ?_, fun early => ?_⟩⟩
  · exact late_unsettled fromStr late step settled
  · have none := step_keeps_empty fromStr empty early step drained
    exact ⟨(step_keeps_sound fromStr sound step).resolved none, none⟩

/-- The only fetch that has tested the flag. -/
theorem alone : [("europe", "match-v5.match", "/x")] =
    ([] : List (String × String × String)) ++ ("europe", "match-v5.match", "/x") :: [] := rfl

/-- A fetch is entered, and then the broker shuts down. -/
theorem settled_of_no_late_drained :
    ∃ gate, Run (fun source event target => ¬ source.Late event ∧
          Step (some : String → Option String) source event target) new
        [.test "europe" "match-v5.match" "/x", .enter "europe" "match-v5.match" "/x" 0, .raise,
          .drain [1]] gate ∧
      gate.drained = true ∧ gate.broker.fetches = [1] ∧ gate.Settled := by
  have entered : Broker.Sound (Broker.new.fetch "europe" "match-v5.match" "/x" 0) [] :=
    Broker.fetch_sound Broker.sound_new _ _ _ _
  have run : ∃ gate, Run (fun source event target => ¬ source.Late event ∧
      Step (some : String → Option String) source event target) new
        [.test "europe" "match-v5.match" "/x", .enter "europe" "match-v5.match" "/x" 0, .raise,
          .drain [1]] gate ∧ gate.drained = true ∧ gate.broker.fetches = [1] := by
    refine ⟨_, .cons ⟨id, .passed rfl⟩ (.cons ⟨nofun, .entered alone⟩ (.cons ⟨id, .raised⟩
      (.cons ⟨id, .drained rfl ?_⟩ (.nil _)))), rfl, rfl⟩
    refine entered.enumerates (fun id live => Option.isSome_iff_exists.mp live) (by decide)
      (by decide) (by decide)
  obtain ⟨gate, run, drained, fetches⟩ := run
  exact ⟨gate, run, drained, fetches, (settled_of_no_late some run).1 drained⟩

/-- A fetch tests the flag, the broker shuts down, and the fetch enters its job: it waits for an
answer that nobody owes it. -/
theorem late_fetch_hangs :
    ∃ gate, Run (Step (some : String → Option String)) new
        [.test "europe" "match-v5.match" "/x", .raise, .drain [],
          .enter "europe" "match-v5.match" "/x" 0] gate ∧
      gate.drained = true ∧ gate.broker.fetches = [1] ∧ gate.broker.channels 1 = none ∧
      (gate.broker.jobs 1).isSome ∧ ¬ gate.Settled := by
  refine ⟨_, .cons (.passed rfl) (.cons .raised (.cons (.drained rfl ?_)
    (.cons (.entered alone) (.nil _)))), rfl, rfl, rfl, rfl, fun settled => ?_⟩
  · exact ⟨List.nodup_nil, fun id => ⟨nofun, nofun⟩⟩
  · have resolved := settled.1 1 (by decide)
    exact resolved rfl

end Gate

end LolCrawler
