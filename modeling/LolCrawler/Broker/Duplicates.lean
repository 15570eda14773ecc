import LolCrawler.Broker.Fetches

/-! # Results that are posted again

A node that does not hear back posts its result again. A result that ended the job,
or was refused, is refused the second time: the job is gone, or still held by
another node. A failure that put the job back into its queue is not: the job has no
lease now, `complete` accepts the report as one that came late, and counts and queues
the job once more (`Broker.PutsBack`).
-/

namespace LolCrawler.Broker

open Foundation

/-- What a result is meant to change once: the jobs, the queues, the audits, the registry's
counters and the statistics. -/
structure SameRecords (next broker : Broker) : Prop where
  jobs : next.jobs = broker.jobs
  queues : next.queues = broker.queues
  audits : next.audits = broker.audits
  registry : next.registry = broker.registry
  stats : next.stats = broker.stats

/-- The result is accepted and puts the job back into its queue: a rejected key, or a failure
short of the last attempt. -/
def PutsBack (broker : Broker) (node : Nat) (result : JobResult) : Prop :=
  ∃ job, broker.jobs result.id = some job ∧ job.accepts node = true ∧
    (result.outcome = .keyRejected ∨ result.outcome = .failed ∧ job.attempts + 1 < maxAttempts)

variable {Value : Type} [DecidableEq Value] (fromStr : String → Option Value)
variable {broker : Broker} {node id : Nat} {result : JobResult} {job : JobState}

/-- The job after it was put back. -/
theorem release_jobs_self (broker : Broker) (live : broker.jobs id = some job) :
    (broker.release id false).jobs id = some (job.unlease false) := by
  simp only [release, live, Bool.false_eq_true, false_and, ↓reduceIte, pushBack_jobs, setJob_jobs,
    Function.update_self]

/-- The queue after the job was put back. -/
theorem release_queues_self (broker : Broker) (live : broker.jobs id = some job) :
    (broker.release id false).queues job.host =
      some ((broker.queues job.host).getD [] ++ [(id, job.excludeNode)]) := by
  simp only [release, live, Bool.false_eq_true, false_and, ↓reduceIte, pushBack_queues,
    setJob_queues, Function.update_self]

theorem abandon_jobs_self (broker : Broker) (id : Nat) (why : String) :
    (broker.abandon id why).jobs id = none := by
  unfold abandon
  cases live : broker.jobs id with
  | none => exact live
  | some job =>
      simp only
      split
      · rw [removeAudit_jobs, send_jobs, removeJob_jobs, Function.update_self]
      · cases job.twinId with
        | none => rw [send_jobs, removeJob_jobs, Function.update_self]
        | some twinId =>
            simp only [removeJob_jobs, removeAudit_jobs, send_jobs]
            by_cases same : id = twinId
            · rw [same, Function.update_self]
            · rw [Function.update_of_ne same, Function.update_self]

theorem deliver_jobs_self (broker : Broker) (node : Nat) (result : JobResult) (job : JobState)
    (body : AuditBody) (nowUnixMs : Nat) :
    (deliver fromStr broker node result job body nowUnixMs).jobs result.id = none := by
  rw [(deliver_sameTable fromStr broker node result job body nowUnixMs).jobs, send_jobs,
    removeJob_jobs, Function.update_self]

/-- A refused result changes nothing. -/
theorem complete_of_refused (nowUnixMs : Nat)
    (refused : ∀ job, broker.jobs result.id = some job → job.accepts node = false) :
    complete fromStr broker node result nowUnixMs = broker := by
  unfold complete
  cases live : broker.jobs result.id with
  | none => rfl
  | some job => simp only [refused job live, Bool.false_eq_true, ↓reduceIte]

/-- Unless it put the job back, a result is refused when it is posted again. -/
theorem complete_refused_again (first : Nat) (ends : ¬ broker.PutsBack node result) (job : JobState)
    (live : (complete fromStr broker node result first).jobs result.id = some job) :
    job.accepts node = false := by
  have completion := complete_completion fromStr broker node result first
  generalize complete fromStr broker node result first = next at completion live
  cases completion with
  | stale refused => exact refused job live
  | delivered _ _ _ =>
      rw [deliver_jobs_self] at live
      cases live
  | keyRejected there accepted outcome => exact (ends ⟨_, there, accepted, .inl outcome⟩).elim
  | exhausted there accepted outcome reached =>
      rw [abandon_jobs_self] at live
      cases live
  | requeued there accepted outcome within =>
      exact (ends ⟨_, there, accepted, .inr ⟨outcome, within⟩⟩).elim

/-- A job that was put back waits in its queue, and takes any report. -/
theorem complete_waiting (first : Nat) (puts : broker.PutsBack node result) :
    ∃ job, (complete fromStr broker node result first).jobs result.id = some job ∧
      job.lease = none := by
  obtain ⟨job, live, accepted, outcome⟩ := puts
  have completion := complete_completion fromStr broker node result first
  generalize complete fromStr broker node result first = next at completion
  cases completion with
  | stale refused =>
      rw [refused job live] at accepted
      cases accepted
  | delivered _ _ filed =>
      exfalso
      rcases outcome with outcome | ⟨outcome, -⟩
      all_goals simp [JobResult.auditBody, outcome] at filed
  | keyRejected there _ _ => exact ⟨_, release_jobs_self _ there, rfl⟩
  | exhausted there _ failed reached =>
      rcases outcome with outcome | ⟨-, within⟩
      · rw [failed] at outcome
        cases outcome
      · rw [live, Option.some.injEq] at there
        subst there
        exact absurd reached (Nat.not_le.mpr within)
  | @requeued job there _ _ _ =>
      have failed : (broker.setJob result.id job.failOnce).jobs result.id = some job.failOnce :=
        Function.update_self ..
      exact ⟨_, release_jobs_self _ failed, rfl⟩

/-- A report for a waiting job changes its attempts or its queue. -/
theorem complete_waiting_changes (second : Nat) (live : broker.jobs result.id = some job)
    (unleased : job.lease = none)
    (outcome : result.outcome = .keyRejected ∨ result.outcome = .failed) :
    ¬ SameRecords (complete fromStr broker node result second) broker := by
  intro same
  have completion := complete_completion fromStr broker node result second
  generalize complete fromStr broker node result second = next at completion same
  have accepts : job.accepts node = true := by simp only [JobState.accepts, unleased]
  cases completion with
  | stale refused =>
      rw [refused job live] at accepts
      cases accepts
  | delivered _ _ filed =>
      rcases outcome with outcome | outcome
      all_goals simp [JobResult.auditBody, outcome] at filed
  | keyRejected _ _ _ =>
      have queued := release_queues_self (broker.markKeyBad node) live
      rw [same.queues] at queued
      have length := congrArg (fun queue => (queue.getD []).length) queued
      simp at length
  | exhausted _ _ _ _ =>
      have gone := same.jobs
      rw [funext_iff] at gone
      have here := gone result.id
      rw [abandon_jobs_self, live] at here
      cases here
  | @requeued current there _ _ _ =>
      rw [live, Option.some.injEq] at there
      subst there
      have failed : (broker.setJob result.id job.failOnce).jobs result.id = some job.failOnce :=
        Function.update_self ..
      have counted := release_jobs_self _ failed
      rw [same.jobs, live, Option.some.injEq] at counted
      have attempts := congrArg JobState.attempts counted
      simp [JobState.unlease, JobState.failOnce] at attempts

/-- **Results that are posted again.** The second of two equal reports changes nothing if and
only if the first did not put the job back, and then no number of further ones does. -/
theorem complete_again_iff (broker : Broker) (node : Nat) (result : JobResult)
    (first second : Nat) :
    (SameRecords (complete fromStr (complete fromStr broker node result first) node result second)
        (complete fromStr broker node result first) ↔ ¬ broker.PutsBack node result) ∧
      (¬ broker.PutsBack node result → ∀ times : List Nat,
        times.foldl (fun current time => complete fromStr current node result time)
            (complete fromStr broker node result first) =
          complete fromStr broker node result first) := by
  refine ⟨⟨fun same puts => ?_, fun ends => ?_⟩, fun ends times => ?_⟩
  · obtain ⟨job, live, unleased⟩ := complete_waiting fromStr first puts
    obtain ⟨_, _, _, outcome⟩ := puts
    exact complete_waiting_changes fromStr second live unleased (outcome.imp_right And.left) same
  · rw [complete_of_refused fromStr second (complete_refused_again fromStr first ends)]
    exact ⟨rfl, rfl, rfl, rfl, rfl⟩
  · induction times with
    | nil => rfl
    | cons time times ih =>
        rw [List.foldl_cons,
          complete_of_refused fromStr time (complete_refused_again fromStr first ends)]
        exact ih

/-- A failure that is posted again after its response was lost counts twice. -/
theorem failure_posted_again_counts_twice :
    ∃ broker, Run (Step fun text : String => some text) new
        [.fetch "europe" "match-v5.match" "/x" 0,
          .takeJobs ⟨1, fun _ => 0, 5, 5, fun _ => false⟩ ["europe"]] broker ∧
      ¬ SameRecords
        (complete (some : String → Option String)
          (complete some broker 1 ⟨1, .failed, none, none⟩ 6) 1 ⟨1, .failed, none, none⟩ 7)
        (complete some broker 1 ⟨1, .failed, none, none⟩ 6) ∧
      ((complete some broker 1 ⟨1, .failed, none, none⟩ 6).jobs 1).map JobState.attempts = some 1 ∧
      ((complete (some : String → Option String)
          (complete some broker 1 ⟨1, .failed, none, none⟩ 6) 1
            ⟨1, .failed, none, none⟩ 7).jobs 1).map JobState.attempts = some 2 := by
  have fetched := run_after_concat (some : String → Option String)
    (.fetch "europe" "match-v5.match" "/x" 0) (.nil new) trivial
  have leased := run_after_concat _ (.takeJobs ⟨1, fun _ => 0, 5, 5, fun _ => false⟩ ["europe"])
    fetched (enumerates_host (by decide) fun other distinct => Function.update_of_ne distinct ..)
  refine ⟨_, leased, fun same => ?_, by decide, by decide⟩
  have jobs := congrArg (fun jobs => (jobs 1).map JobState.attempts) same.jobs
  revert jobs
  decide

end LolCrawler.Broker
