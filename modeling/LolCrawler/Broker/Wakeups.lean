import LolCrawler.Broker.LongPoll

/-! # Missed wake-ups

A job that is queued between a handler's look at the queues and its call of `notified` wakes
nobody if its `notify_waiters` falls there too, and a poll that clones a job for an audit notifies
nobody. A poll may also come back empty while a job waits behind entries of jobs that are gone.
These are the only ways in which a parked handler misses a job (`noMissed_of_undisturbed`).
-/

namespace LolCrawler

open Foundation

namespace Broker

variable {broker : Broker} {handed : List (Nat × Nat)}

/-- A broker that is drained has handed out what it had. -/
theorem drain_handled (handled : Handled broker handed) {order : List Nat}
    (all : Enumerates order fun id => (broker.jobs id).isSome) :
    Handled (broker.drain order) handed := by
  have empty := drain_empty all
  have nextId : (broker.drain order).nextId = broker.nextId :=
    List.foldlRecOn order drainJob (motive := fun current => current.nextId = broker.nextId) rfl
      fun current same id _ => by
        unfold drainJob
        cases current.jobs id with
        | none => exact same
        | some job => exact (send_nextId ..).trans same
  refine ⟨fun id job live => ?_, fun _ _ _ _ _ there => (nomatch there),
    fun _ _ _ there => (nomatch there), fun id job _ _ live => ?_, fun node id member => ?_⟩
  · exact nomatch (empty id).symm.trans live
  · exact nomatch (empty id).symm.trans live
  · rw [nextId]
    exact ⟨(handled.allowed node id member).1, fun job live => nomatch (empty id).symm.trans live⟩

end Broker

namespace LongPoll

variable {Value : Type} [DecidableEq Value] (fromStr : String → Option Value)
  {poll next : LongPoll} {event : Event}

/-- The queues hold entries of jobs that were created. -/
def Kept (poll : LongPoll) : Prop := ∃ handed, Broker.Handled poll.gate.broker handed

/-- Behind the gate the broker keeps account of what is handed out. -/
theorem gate_handled {gate later : Gate} {event : Gate.Event} {handed : List (Nat × Nat)}
    (handled : Broker.Handled gate.broker handed) (step : Gate.Step fromStr gate event later) :
    ∃ handed, Broker.Handled later.broker handed := by
  cases step with
  | refused _ => exact ⟨handed, handled⟩
  | passed _ => exact ⟨handed, handled⟩
  | entered _ => exact ⟨handed, Broker.fetch_handled handled _ _ _ _⟩
  | raised => exact ⟨handed, handled⟩
  | drained _ all => exact ⟨handed, Broker.drain_handled handled all⟩
  | @called call broker atomic step =>
      have entered : Broker.Ledger.Step fromStr ⟨gate.broker, handed⟩ call
          ⟨broker, handed ++ Broker.handedOut gate.broker call⟩ := ⟨step, rfl⟩
      exact ⟨_, Broker.step_handled fromStr handled entered⟩

/-- **One step** keeps the handlers in order. -/
theorem step_kept (kept : poll.Kept) (step : Step fromStr poll event next) : next.Kept := by
  obtain ⟨handed, handled⟩ := kept
  cases step with
  | arrived fresh =>
      exact ⟨handed, handled.drops { Broker.Drops.rfl poll.gate.broker with }⟩
  | refused there phase raised => exact ⟨handed, handled⟩
  | admitted there phase down => exact ⟨handed, handled⟩
  | took there phase order => exact ⟨_, Broker.takeJobs_handled _ _ handled⟩
  | answered there phase done => exact ⟨handed, handled⟩
  | waits there phase before => exact ⟨handed, handled⟩
  | registered there phase => exact ⟨handed, handled⟩
  | woken there phase ready => exact ⟨handed, handled⟩
  | worked offDuty step => exact gate_handled fromStr handled step
  | notifies owes => exact ⟨handed, handled⟩
  | ticked later => exact ⟨handed, handled⟩

/-! ## One step -/

/-- Only the handler that takes the step has something to show. -/
theorem Covered.setHandler {id : Nat} {handler : Handler} (covered : poll.Covered)
    (own : handler.phase.stage.idle = true → poll.now < handler.deadline →
      poll.gate.broker.Waits handler → 0 < poll.owed) : (poll.setHandler id handler).Covered := by
  rw [covered_iff] at covered ⊢
  intro other current there idle before waits
  by_cases same : other = id
  · rw [same, setHandler_handlers, Function.update_self, Option.some.injEq] at there
    subst there
    exact own idle before waits
  · rw [setHandler_handlers, Function.update_of_ne same] at there
    exact covered other current there idle before waits

/-- A handler that goes on without a look at the queues. -/
theorem Covered.goes_on {id : Nat} {handler : Handler} {phase : Phase} (covered : poll.Covered)
    (there : poll.handlers id = some handler)
    (idle : phase.stage.idle = true → handler.phase.stage.idle = true) :
    (poll.setHandler id { handler with phase := phase }).Covered :=
  covered.setHandler fun stays before waits =>
    poll.covered_iff.mp covered id handler there (idle stays) before waits

/-- A handler is notified if it waits. -/
theorem notifyWaiters_stage (poll : LongPoll) (id : Nat) :
    poll.notifyWaiters.stage id = (poll.stage id).notify := by
  unfold stage
  rw [notifyWaiters_handlers]
  cases poll.handlers id with
  | none => rfl
  | some handler => exact handler.phase.stage_notify

/-- A notification changes nobody's needs. -/
theorem notifyWaiters_needs (poll : LongPoll) (id : Nat) :
    poll.notifyWaiters.Needs id ↔ poll.Needs id := by
  unfold Needs
  rw [notifyWaiters_handlers]
  cases poll.handlers id with
  | none => exact ⟨fun ⟨_, there, _⟩ => (nomatch there), fun ⟨_, there, _⟩ => (nomatch there)⟩
  | some handler =>
      constructor
      · rintro ⟨_, there, before, waits⟩
        cases there
        exact ⟨handler, rfl, before, waits⟩
      · rintro ⟨_, there, before, waits⟩
        cases there
        exact ⟨{ handler with phase := handler.phase.notify }, rfl, before, waits⟩

/-- What a call of `notify_waiters` leaves covered. -/
theorem notifyWaiters_covered_iff (poll : LongPoll) (owed : Nat) :
    Covered { poll.notifyWaiters with owed := owed } ↔
      0 < owed ∨ ∀ id handler, poll.handlers id = some handler →
        handler.phase.stage = .checked → poll.now < handler.deadline →
          ¬ poll.gate.broker.Waits handler := by
  have stages : stage { poll.notifyWaiters with owed := owed } = fun id => (poll.stage id).notify :=
    funext (notifyWaiters_stage poll)
  have needs : Needs { poll.notifyWaiters with owed := owed } = poll.Needs :=
    funext fun id => propext (notifyWaiters_needs poll id)
  rw [Covered, stages, needs, covered_notify_iff]
  refine or_congr_right ⟨fun none id handler there checked before waits => ?_,
    fun none id checked need => ?_⟩
  · refine none id ?_ ⟨handler, there, before, waits⟩
    rw [stage, there]
    exact checked
  · obtain ⟨handler, there, before, waits⟩ := need
    rw [stage, there] at checked
    exact none id handler there checked before waits

/-- A poll of one handler leaves everybody else covered. -/
theorem Covered.takeJobs (covered : poll.Covered) (caller : Broker.Poll) {hosts : List String}
    (kept : poll.Kept) (order : Enumerates hosts fun host =>
      (poll.gate.broker.queues host).isSome)
    (clones : ∀ other handler, poll.handlers other = some handler →
      handler.phase.stage.idle = true → poll.now < handler.deadline →
        Clones poll.gate.broker caller hosts handler → 0 < poll.owed) :
    (poll.setBroker (poll.gate.broker.takeJobs caller hosts).1).Covered := by
  obtain ⟨handed, handled⟩ := kept
  rw [covered_iff] at covered ⊢
  intro other handler there idle before waits
  by_cases cloned : Clones poll.gate.broker caller hosts handler
  · exact clones other handler there idle before cloned
  · refine covered other handler there idle before
      (waits_of_queued waits fun host room queued => ?_)
    refine (Broker.takeJobs_queued handled order.1 queued).resolve_right fun twin => cloned ?_
    obtain ⟨distinct, job, inside, rfl⟩ := twin
    exact ⟨distinct, job, inside, room⟩

/-- Nothing is handed out when the entries that fit are of jobs that are gone. -/
theorem handout_eq_nil_iff (broker : Broker) (caller : Broker.Poll) (hosts : List String) :
    broker.handout caller hosts = [] ↔ ∀ host ∈ hosts,
      ∀ id ∈ (broker.eligible caller.node host).take (Broker.room caller host),
        broker.live id = false := by
  unfold Broker.handout
  rw [List.flatMap_eq_nil_iff]
  refine forall₂_congr fun host _ => ?_
  rw [List.filterMap_eq_nil_iff, Broker.taken_fst]
  refine forall₂_congr fun id _ => ?_
  rw [Broker.offer, Option.map_eq_none_iff, Broker.live, Option.isSome_eq_false_iff,
    Option.isNone_iff_eq_none]

/-- **One step** leaves every handler covered, if it is undisturbed. -/
theorem step_covered (kept : poll.Kept) (covered : poll.Covered)
    (undisturbed : poll.Undisturbed event) (step : Step fromStr poll event next) :
    next.Covered := by
  cases step with
  | @arrived id node waitMs pending fresh =>
      have touched : (poll.setBroker { poll.gate.broker with
          registry := poll.gate.broker.registry.touch node poll.now }).Covered := by
        rw [covered_iff] at covered ⊢
        exact covered
      exact touched.setHandler nofun
  | refused there phase raised => exact covered.goes_on there nofun
  | admitted there phase down => exact covered.goes_on there nofun
  | @took caller now activeNow dice hosts handler there phase order =>
      have given : 0 < poll.owed ∨
          (poll.now < handler.deadline → ¬ Starves poll.gate.broker handler hosts) ∧
            ∀ other current, poll.handlers other = some current →
              current.phase.stage.idle = true → poll.now < current.deadline →
                ¬ Clones poll.gate.broker (handler.poll now activeNow dice) hosts current :=
        undisturbed.imp_right fun each => each handler there
      have others := covered.takeJobs (handler.poll now activeNow dice) kept order
        fun other current here idle before clones => given.elim id fun free =>
          (free.2 other current here idle before clones).elim
      refine others.setHandler fun idle before waits => given.elim id fun free => ?_
      obtain ⟨handed, handled⟩ := kept
      refine (free.1 before ⟨?_, ?_⟩).elim
      · refine waits_of_queued waits fun host room queued => ?_
        exact (Broker.takeJobs_queued handled order.1 queued).resolve_right
          fun twin => twin.1 rfl
      · have nothing :
            (poll.gate.broker.takeJobs (handler.poll now activeNow dice) hosts).2 = [] := by
          cases reply : (poll.gate.broker.takeJobs (handler.poll now activeNow dice) hosts).2 with
          | nil => rfl
          | cons job jobs =>
              simp only [reply] at idle
              cases idle
        rw [Broker.takeJobs_snd _ order.1, handout_eq_nil_iff] at nothing
        exact nothing
  | answered there phase done => exact covered.goes_on there nofun
  | waits there phase before =>
      refine covered.goes_on there fun _ => ?_
      rw [phase]
      rfl
  | registered there phase =>
      refine covered.goes_on there fun _ => ?_
      rw [phase]
      rfl
  | woken there phase ready => exact covered.goes_on there nofun
  | @worked event next offDuty step =>
      refine Foundation.Covered.change covered fun id idle need => ?_
      obtain ⟨handler, there, before, waits⟩ := need
      cases wakes : poll.gate.wakes event with
      | true => exact .inr (Nat.succ_pos _)
      | false =>
          refine .inl ⟨idle, handler, there, before, waits_of_queued waits fun host _ queued => ?_⟩
          refine (Gate.step_queued fromStr offDuty step queued).resolve_right ?_
          rw [wakes]
          exact Bool.false_ne_true
  | @notifies owed owes =>
      refine (notifyWaiters_covered_iff poll owed).mpr (undisturbed.imp_left fun more => ?_)
      rw [owes] at more
      exact Nat.lt_of_succ_lt_succ more
  | ticked later =>
      rw [covered_iff] at covered ⊢
      exact fun id handler there idle before => covered id handler there idle
        (Nat.lt_of_le_of_lt later before)

/-! ## Runs -/

/-- A handler that is left idle with a job waiting, and no notification to come, goes on to miss
it. -/
theorem missed_of_idle {id : Nat} {handler : Handler} (there : poll.handlers id = some handler)
    (idle : handler.phase.stage.idle = true) (before : poll.now < handler.deadline)
    (waits : poll.gate.broker.Waits handler) (unowed : poll.owed = 0) :
    ∃ later missed, (∀ event ∈ later, event = .compare id ∨ event = .notified id) ∧
      Run (Step fromStr) poll later missed ∧ ¬ missed.NoMissed := by
  have parked : ∀ current : LongPoll, current.handlers id = some { handler with
      phase := .parked false } → current.now = poll.now → current.gate = poll.gate →
      current.owed = 0 → ¬ current.NoMissed := by
    intro current found now gate owed attended
    have waiting : current.gate.broker.Waits { handler with phase := .parked false } := by
      rw [gate]
      exact waits
    rcases attended id _ false found rfl (by rw [now]; exact before) waiting with told | more
    · cases told
    · rw [owed] at more
      exact Nat.lt_irrefl 0 more
  have updated : ∀ (current : LongPoll) (phase : Phase),
      (current.setHandler id { handler with phase := phase }).handlers id =
        some { handler with phase := phase } := fun _ _ => Function.update_self ..
  cases phase : handler.phase with
  | looping => rw [phase] at idle; cases idle
  | admitted => rw [phase] at idle; cases idle
  | answered jobs => rw [phase] at idle; cases idle
  | parked notified =>
      cases notified with
      | true => rw [phase] at idle; cases idle
      | false =>
          refine ⟨[], poll, nofun, .nil poll, parked poll ?_ rfl rfl unowed⟩
          rw [there, ← phase]
  | registering =>
      refine ⟨[.notified id], _, ?_, .cons (.registered there phase) (.nil _),
        parked _ (updated poll _) rfl rfl unowed⟩
      exact fun event inside => .inr (List.mem_singleton.mp inside)
  | taken jobs =>
      cases jobs with
      | cons job jobs => rw [phase] at idle; cases idle
      | nil =>
          refine ⟨[.compare id, .notified id], _, ?_, .cons (.waits there phase before)
            (.cons (.registered (updated poll .registering) rfl) (.nil _)),
            parked _ (updated _ _) rfl rfl unowed⟩
          intro event inside
          exact (List.mem_cons.mp inside).imp_right List.mem_singleton.mp

/-- A step outside the condition leaves such a handler. -/
theorem disturbed_idle (kept : poll.Kept) (disturbed : ¬ poll.Undisturbed event)
    (step : Step fromStr poll event next) :
    ∃ id handler, next.handlers id = some handler ∧ handler.phase.stage.idle = true ∧
      next.now < handler.deadline ∧ next.gate.broker.Waits handler ∧ next.owed = 0 := by
  cases step with
  | arrived fresh => exact (disturbed trivial).elim
  | refused there phase raised => exact (disturbed trivial).elim
  | admitted there phase down => exact (disturbed trivial).elim
  | answered there phase done => exact (disturbed trivial).elim
  | waits there phase before => exact (disturbed trivial).elim
  | registered there phase => exact (disturbed trivial).elim
  | woken there phase ready => exact (disturbed trivial).elim
  | worked offDuty step => exact (disturbed trivial).elim
  | ticked later => exact (disturbed trivial).elim
  | @notifies owed owes =>
      simp only [Undisturbed, not_or, not_forall, not_not, exists_prop] at disturbed
      obtain ⟨last, id, handler, there, checked, before, waits⟩ := disturbed
      refine ⟨id, { handler with phase := handler.phase.notify }, ?_, ?_, before, waits, ?_⟩
      · rw [notifyWaiters_handlers, there]
        rfl
      · rw [Phase.stage_notify, checked]
        rfl
      · rw [owes] at last
        exact Nat.le_zero.mp (Nat.le_of_lt_succ (Nat.lt_of_not_le fun more => last
          (Nat.succ_lt_succ more)))
  | @took id now activeNow dice hosts handler there phase order =>
      simp only [Undisturbed, not_or, not_forall, not_and_or, not_not, exists_prop] at disturbed
      obtain ⟨unowed, caller, found, either⟩ := disturbed
      obtain ⟨handed, handled⟩ := kept
      rw [there, Option.some.injEq] at found
      subst found
      rcases either with ⟨before, waits, dead⟩ | ⟨other, current, here, idle, before, apart, clones⟩
      · have nothing := (handout_eq_nil_iff poll.gate.broker (handler.poll now activeNow dice)
          hosts).mpr dead
        refine ⟨id, _, Function.update_self .., ?_, before, ?_, Nat.eq_zero_of_not_pos unowed⟩
        · rw [Broker.takeJobs_snd _ order.1, nothing]
          rfl
        · exact waits_of_queued waits fun host room queued =>
            Broker.takeJobs_idle handled order.1 nothing queued
      · have distinct : other ≠ id := by
          intro same
          rw [same, there, Option.some.injEq] at here
          rw [← here, phase] at idle
          cases idle
        refine ⟨other, current, ?_, idle, before, ?_, Nat.eq_zero_of_not_pos unowed⟩
        · rw [setHandler_handlers, Function.update_of_ne distinct]
          exact here
        · obtain ⟨job, inside, room⟩ := clones
          exact ⟨job.host, room, (Broker.queued_iff ..).mp
            (Broker.takeJobs_clones handled order.1 apart inside)⟩

/-- **No missed wake-up.** In every run whose steps all meet the condition, a handler parked before
its deadline has been notified if a job waits for it in the queues, or a call that queued a job is
still to notify it. The condition is exact: after a step that does not meet it, some handler needs
only to go on to miss a job. -/
theorem noMissed_of_undisturbed {events : List Event}
    (run : Run (fun source event target => source.Undisturbed event ∧
      Step fromStr source event target) new events poll) :
    poll.NoMissed ∧ ∀ event next, Step fromStr poll event next → ¬ poll.Undisturbed event →
      ∃ id later missed, (∀ event ∈ later, event = .compare id ∨ event = .notified id) ∧
        Run (Step fromStr) next later missed ∧ ¬ missed.NoMissed := by
  have both : poll.Kept ∧ poll.Covered := by
    refine run.invariant (fun poll => poll.Kept ∧ poll.Covered)
      (fun _ _ _ held step => ⟨step_kept fromStr held.1 step.2,
        step_covered fromStr held.1 held.2 step.1 step.2⟩) ⟨⟨[], Broker.handled_new⟩, ?_⟩
    exact new.covered_iff.mpr fun _ _ there => nomatch there
  refine ⟨both.2.noMissed, fun event next step disturbed => ?_⟩
  obtain ⟨id, handler, there, idle, before, waits, unowed⟩ :=
    disturbed_idle fromStr both.1 disturbed step
  exact ⟨id, missed_of_idle fromStr there idle before waits unowed⟩

/-- A request finds nothing. -/
def polled : List Event :=
  [.arrive 1 1 (fun _ => 0) 20000, .isShutdown 1, .takeJobs 1 0 0 (fun _ => false) [],
    .compare 1]

/-- A fetch is entered. -/
def fetched : List Event :=
  [.work (.test "europe" "match-v5.match" "/x"), .work (.enter "europe" "match-v5.match" "/x" 0),
    .notifyWaiters]

/-- The request registers before the fetch, and is told of it. -/
theorem noMissed_of_undisturbed_told :
    ∃ poll, Run (fun source event target => source.Undisturbed event ∧
          Step (some : String → Option String) source event target) new
        (polled ++ [.notified 1] ++ fetched) poll ∧
      (poll.handlers 1).map Handler.phase = some (.parked true) ∧
      poll.gate.broker.dispatchable 1 "europe" = [1] ∧ poll.NoMissed := by
  have run : ∃ poll, Run (fun source event target => source.Undisturbed event ∧
      Step (some : String → Option String) source event target) new
        (polled ++ [.notified 1] ++ fetched) poll ∧
      (poll.handlers 1).map Handler.phase = some (.parked true) ∧
      poll.gate.broker.dispatchable 1 "europe" = [1] := by
    refine ⟨_, .cons ⟨trivial, .arrived rfl⟩ (.cons ⟨trivial, .admitted rfl rfl rfl⟩
      (.cons ⟨.inr fun caller there => ⟨fun _ => ?_, fun other handler here _ _ => ?_⟩,
        .took rfl rfl ⟨List.nodup_nil, fun _ => ⟨nofun, nofun⟩⟩⟩
        (.cons ⟨trivial, .waits rfl rfl (by decide)⟩ (.cons ⟨trivial, .registered rfl rfl⟩
          (.cons ⟨trivial, .worked trivial (.passed rfl)⟩
            (.cons ⟨trivial, .worked trivial (.entered Gate.alone)⟩
              (.cons ⟨.inr fun id handler here checked => ?_, .notifies rfl⟩
                (.nil _)))))))), rfl, by decide⟩
    · rintro ⟨⟨host, _, waits⟩, _⟩
      exact waits rfl
    · rintro ⟨_, job, cloned, _⟩
      exact List.not_mem_nil cloned
    · by_cases same : id = 1
      · subst same
        cases here
        cases checked
      · simp only [setHandler_handlers, setBroker, new, ne_eq, same, not_false_eq_true,
          Function.update_of_ne, reduceCtorEq] at here
  obtain ⟨poll, run, told, waits⟩ := run
  exact ⟨poll, run, told, waits, (noMissed_of_undisturbed some run).1⟩

/-- The request registers after the fetch has notified, and is parked with the job in the queue. -/
theorem wakeUp_missed :
    ∃ poll, Run (Step (some : String → Option String)) new (polled ++ fetched ++ [.notified 1])
        poll ∧
      (poll.handlers 1).map Handler.phase = some (.parked false) ∧ poll.owed = 0 ∧
      poll.gate.broker.dispatchable 1 "europe" = [1] ∧ ¬ poll.NoMissed := by
  refine ⟨_, .cons (.arrived rfl) (.cons (.admitted rfl rfl rfl) (.cons (.took rfl rfl ?_)
    (.cons (.waits rfl rfl (by decide)) (.cons (.worked trivial (.passed rfl))
      (.cons (.worked trivial (.entered Gate.alone)) (.cons (.notifies rfl)
        (.cons (.registered rfl rfl) (.nil _)))))))), rfl, rfl, by decide, fun attended => ?_⟩
  · exact ⟨List.nodup_nil, fun _ => ⟨nofun, nofun⟩⟩
  · have told := attended 1 _ false rfl rfl (by decide) ⟨"europe", by decide, by decide⟩
    exact absurd told (by decide)

end LongPoll

end LolCrawler
