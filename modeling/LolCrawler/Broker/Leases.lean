import LolCrawler.Broker.Fetches

/-! # Lease exclusivity

The queues are meant to hold unleased live jobs, each once. Leasing, expiry and
the reports of the lease holder keep it that way (`Broker.Exclusive`). A failure
or key rejection reported for a job that is already back in its queue does not:
`complete` accepts it because the job has no lease, and queues the job a second
time. `Broker.Requeues` names those calls; without them every reachable state
satisfies the queue invariant (`Broker.queues_exclusive_of_no_requeue`).
-/

namespace LolCrawler.Broker

open Foundation

/-- The queue invariant stated at the job table: a live job occurs at most once
across all queues, and only while it holds no lease. -/
def QueueInvariant (broker : Broker) : Prop :=
  ∀ id job, broker.jobs id = some job → ∀ host queue, broker.queues host = some queue →
    id ∈ queue.map Prod.fst →
      job.lease = none ∧ (queue.map Prod.fst).count id = 1 ∧
        ∀ other entries, broker.queues other = some entries → id ∈ entries.map Prod.fst →
          other = host

/-- What take_jobs promises a node: no id twice, and no job another lease holds. -/
def ReplyExclusive (broker : Broker) (reply : List Job) : Prop :=
  (reply.map Job.id).Nodup ∧
    ∀ handed ∈ reply, ∃ job, broker.jobs handed.id = some job ∧ job.lease = none

/-- A call that reports a failure short of the last attempt, or a rejected key,
for a job that is waiting in its queue. -/
def Requeues (broker : Broker) : Call → Prop
  | .complete _ result _ => ∃ job, broker.jobs result.id = some job ∧ job.lease = none ∧
      (result.outcome = .keyRejected ∨
        result.outcome = .failed ∧ job.attempts + 1 < maxAttempts)
  | _ => False

/-- The inductive form of the queue invariant, while the ids in `taken` are out of
their queue and not yet leased. -/
structure Exclusive (broker : Broker) (taken : List Nat) : Prop where
  bounded : ∀ host queue, broker.queues host = some queue → ∀ id ∈ queue.map Prod.fst,
    id < broker.nextId
  home : ∀ id job host queue, broker.jobs id = some job → broker.queues host = some queue →
    id ∈ queue.map Prod.fst → job.host = host ∧ job.lease = none ∧
      (queue.map Prod.fst).count id ≤ 1 ∧ id ∉ taken
  unleased : ∀ id job, broker.jobs id = some job → id ∈ taken →
    job.lease = none ∧ taken.count id ≤ 1

/-- The job occurs in no queue. -/
def Unqueued (broker : Broker) (id : Nat) : Prop :=
  ∀ host queue, broker.queues host = some queue → id ∉ queue.map Prod.fst

/-- A new broker is exclusive. -/
theorem exclusive_new : Exclusive new [] where
  bounded := fun _ _ there => nomatch there
  home := fun _ _ _ _ live => nomatch live
  unleased := fun _ _ live => nomatch live

variable {broker next : Broker} {taken : List Nat} {id : Nat} {job : JobState}

namespace Exclusive

/-- The invariant is what the queues promise. -/
theorem queueInvariant (exclusive : Exclusive broker []) : broker.QueueInvariant := by
  intro id job live host queue there member
  obtain ⟨own, unleased, once, _⟩ := exclusive.home _ _ _ _ live there member
  refine ⟨unleased, Nat.le_antisymm once (List.count_pos_iff.mpr member), ?_⟩
  intro other entries found occurs
  exact (exclusive.home _ _ _ _ live found occurs).1.symm.trans own

/-- A leased job occurs in no queue. -/
theorem unqueued_of_leased (exclusive : Exclusive broker taken) (live : broker.jobs id = some job)
    (leased : job.lease ≠ none) : broker.Unqueued id :=
  fun _ _ there member => leased (exclusive.home _ _ _ _ live there member).2.1

/-- A fresh id occurs in no queue. -/
theorem unqueued_of_fresh (exclusive : Exclusive broker taken) : broker.Unqueued broker.nextId :=
  fun _ _ there member => Nat.lt_irrefl _ (exclusive.bounded _ _ there _ member)

/-- Fewer live jobs over the same queues. -/
theorem shrink (exclusive : Exclusive broker taken) (queues : next.queues = broker.queues)
    (nextId : broker.nextId ≤ next.nextId)
    (jobs : ∀ id job, next.jobs id = some job → ∃ old, broker.jobs id = some old ∧
      old.host = job.host ∧ old.lease = job.lease) : Exclusive next taken where
  bounded := by
    intro host queue there id member
    exact Nat.lt_of_lt_of_le (exclusive.bounded _ _ (queues ▸ there) _ member) nextId
  home := by
    intro id job host queue live there member
    obtain ⟨old, before, sameHost, sameLease⟩ := jobs id job live
    rw [← sameHost, ← sameLease]
    exact exclusive.home _ _ _ _ before (queues ▸ there) member
  unleased := by
    intro id job live member
    obtain ⟨old, before, _, sameLease⟩ := jobs id job live
    exact sameLease ▸ exclusive.unleased _ _ before member

/-- Jobs that are dropped leave the others exclusive. -/
theorem drops (exclusive : Exclusive broker taken) (drops : Drops next broker) :
    Exclusive next taken :=
  exclusive.shrink drops.queues (Nat.le_of_eq drops.nextId.symm)
    fun id job live => ⟨job, drops.jobs id job live, rfl, rfl⟩

/-- A fresh job that is not queued yet. -/
theorem insert (exclusive : Exclusive broker taken) (fresh : ∀ id ∈ taken, id < broker.nextId)
    (queues : next.queues = broker.queues) (nextId : next.nextId = broker.nextId + 1)
    (jobs : next.jobs = Function.update broker.jobs broker.nextId (some job)) :
    Exclusive next taken where
  bounded := by
    intro host queue there id member
    rw [nextId]
    exact Nat.lt_succ_of_lt (exclusive.bounded _ _ (queues ▸ there) _ member)
  home := by
    intro id current host queue live there member
    rw [queues] at there
    have old : id ≠ broker.nextId := Nat.ne_of_lt (exclusive.bounded _ _ there _ member)
    rw [jobs, Function.update_of_ne old] at live
    exact exclusive.home _ _ _ _ live there member
  unleased := by
    intro id current live member
    rw [jobs, Function.update_of_ne (Nat.ne_of_lt (fresh id member))] at live
    exact exclusive.unleased _ _ live member

/-- Queueing an unleased job that is in no queue. -/
theorem enqueue (exclusive : Exclusive broker taken) (live : broker.jobs id = some job)
    (unleased : job.lease = none) (unqueued : broker.Unqueued id) (below : id < broker.nextId)
    (kept : id ∉ taken) (exclude : Option Nat) :
    Exclusive (broker.pushBack job.host (id, exclude)) taken := by
  -- The only queue that changes is the job's own.
  have grown : ∀ {host queue}, (broker.pushBack job.host (id, exclude)).queues host = some queue →
      (host = job.host ∧ queue = (broker.queues host).getD [] ++ [(id, exclude)]) ∨
        host ≠ job.host ∧ broker.queues host = some queue := by
    intro host queue there
    rw [pushBack_queues] at there
    by_cases same : host = job.host
    · subst same
      rw [Function.update_self, Option.some.injEq] at there
      exact .inl ⟨rfl, there.symm⟩
    · rw [Function.update_of_ne same] at there
      exact .inr ⟨same, there⟩
  constructor
  · intro host queue there other member
    rcases grown there with ⟨_, rfl⟩ | ⟨_, there⟩
    · rw [List.map_append, List.mem_append, List.map_singleton, List.mem_singleton] at member
      rcases member with member | rfl
      · cases before : broker.queues host with
        | none =>
            rw [before] at member
            cases member
        | some old =>
            rw [before] at member
            exact exclusive.bounded _ _ before _ member
      · exact below
    · exact exclusive.bounded _ _ there _ member
  · intro other current host queue found there member
    change broker.jobs other = some current at found
    rcases grown there with ⟨own, rfl⟩ | ⟨_, there⟩
    · cases before : broker.queues host with
      | none =>
          rw [before] at member
          cases List.mem_singleton.mp member
          rw [live, Option.some.injEq] at found
          subst found
          exact ⟨own.symm, unleased, by simp, kept⟩
      | some old =>
          rw [before, Option.getD_some, List.map_append, List.mem_append, List.map_singleton,
            List.mem_singleton] at member
          rw [Option.getD_some, List.map_append, List.count_append, List.map_singleton]
          rcases member with member | rfl
          · have apart : id ≠ other := fun same => unqueued _ _ before (same ▸ member)
            obtain ⟨home, free, once, outside⟩ := exclusive.home _ _ _ _ found before member
            refine ⟨home, free, ?_, outside⟩
            rw [List.count_singleton, beq_eq_false_iff_ne.mpr apart]
            exact once
          · rw [live, Option.some.injEq] at found
            subst found
            refine ⟨own.symm, unleased, ?_, kept⟩
            apply Nat.le_of_eq
            rw [List.count_eq_zero.mpr (unqueued _ _ before), List.count_singleton_self]
    · exact exclusive.home _ _ _ _ found there member
  · exact exclusive.unleased

/-- Rewriting a job without moving it or touching its lease. -/
theorem setJob {old : JobState} (exclusive : Exclusive broker taken)
    (live : broker.jobs id = some old) (host : job.host = old.host)
    (lease : job.lease = old.lease) : Exclusive (broker.setJob id job) taken := by
  refine exclusive.shrink rfl (Nat.le_refl _) fun other current found => ?_
  by_cases same : other = id
  · subst same
    rw [setJob_jobs, Function.update_self, Option.some.injEq] at found
    exact ⟨old, live, found ▸ host.symm, found ▸ lease.symm⟩
  · rw [setJob_jobs, Function.update_of_ne same] at found
    exact ⟨current, found, rfl, rfl⟩

end Exclusive

/-- Releasing a job that is in no queue and not being dispatched. -/
theorem release_exclusive (sound : Sound broker []) (exclusive : Exclusive broker [])
    (unqueued : ∀ job, broker.jobs id = some job → broker.Unqueued id) (countAttempt : Bool) :
    Exclusive (broker.release id countAttempt) [] := by
  unfold release
  cases live : broker.jobs id with
  | none => exact exclusive
  | some job =>
      have outside := unqueued job live
      have unleased : Exclusive (broker.setJob id (job.unlease countAttempt)) [] := by
        refine { exclusive with home := ?_, unleased := fun _ _ _ member => nomatch member }
        intro other current host queue found there member
        have apart : other ≠ id := fun same => outside _ _ there (same ▸ member)
        rw [setJob_jobs, Function.update_of_ne apart] at found
        exact exclusive.home _ _ _ _ found there member
      simp only
      split
      · exact unleased.drops (drops_abandon _ _ _)
      · have there : (broker.setJob id (job.unlease countAttempt)).jobs id =
            some (job.unlease countAttempt) := Function.update_self ..
        exact unleased.enqueue there rfl outside (sound.fresh _ _ live) List.not_mem_nil _

/-! ## Dispatch -/

/-- A queue is split into the picked ids and the kept entries. -/
theorem pick_perm (node : Nat) : ∀ (cap : Nat) (queue : List (Nat × Option Nat)),
    ((pick node cap queue).1 ++ (pick node cap queue).2.map Prod.fst).Perm (queue.map Prod.fst)
  | 0, _ => by simp only [pick, List.nil_append, List.Perm.refl]
  | _ + 1, [] => by simp only [pick, List.map_nil, List.append_nil, List.Perm.refl]
  | cap + 1, head :: queue => by
      unfold pick
      by_cases excluded : head.2 = some node
      · simp only [excluded, ↓reduceIte, List.map_cons]
        exact List.perm_middle.trans ((pick_perm node (cap + 1) queue).cons _)
      · simp only [excluded, ↓reduceIte, List.map_cons, List.cons_append]
        exact (pick_perm node cap queue).cons _

/-- The jobs handed out so far were free when the call started and are leased now;
every other job is untouched. -/
structure Handed (start : Broker) (dispatch : Dispatch) : Prop where
  distinct : (dispatch.out.map Job.id).Nodup
  free : ∀ handed ∈ dispatch.out, ∃ job, start.jobs handed.id = some job ∧ job.lease = none
  leased : ∀ handed ∈ dispatch.out, ∀ job, dispatch.broker.jobs handed.id = some job →
    job.lease ≠ none
  untouched : ∀ id, id ∉ dispatch.out.map Job.id → dispatch.broker.jobs id = start.jobs id

/-- A job that is leased is no more picked. -/
theorem leaseJob_exclusive (poll : Poll) (auditPossible : Bool) {start : Broker}
    {dispatch : Dispatch} (exclusive : Exclusive dispatch.broker (id :: taken))
    (handed : Handed start dispatch) :
    Exclusive (leaseJob poll auditPossible dispatch id).broker taken ∧
      Handed start (leaseJob poll auditPossible dispatch id) := by
  unfold leaseJob
  cases live : dispatch.broker.jobs id with
  | none =>
      refine ⟨⟨exclusive.bounded, ?_, ?_⟩, handed⟩
      · intro other current host queue found there member
        obtain ⟨home, free, once, outside⟩ := exclusive.home _ _ _ _ found there member
        exact ⟨home, free, once, fun inside => outside (List.mem_cons_of_mem _ inside)⟩
      · intro other current found member
        obtain ⟨free, once⟩ := exclusive.unleased _ _ found (List.mem_cons_of_mem _ member)
        exact ⟨free, Nat.le_trans (List.count_le_count_cons ..) once⟩
  | some job =>
      obtain ⟨free, once⟩ := exclusive.unleased _ _ live List.mem_cons_self
      have gone : id ∉ taken := by
        rw [List.count_cons_self] at once
        exact List.count_eq_zero.mp (Nat.le_zero.mp (Nat.le_of_succ_le_succ once))
      -- Not in `out` yet, since everything handed out is leased.
      have new : id ∉ dispatch.out.map Job.id := by
        intro member
        obtain ⟨earlier, out, same⟩ := List.mem_map.mp member
        exact handed.leased earlier out job (same ▸ live) free
      refine ⟨⟨exclusive.bounded, ?_, ?_⟩, ⟨?_, ?_, ?_, ?_⟩⟩
      · intro other current host queue found there member
        have apart : other ≠ id := by
          rintro rfl
          exact (exclusive.home _ _ _ _ live there member).2.2.2 List.mem_cons_self
        rw [setJob_jobs, Function.update_of_ne apart] at found
        obtain ⟨home, free, once, outside⟩ := exclusive.home _ _ _ _ found there member
        exact ⟨home, free, once, fun inside => outside (List.mem_cons_of_mem _ inside)⟩
      · intro other current found member
        have apart : other ≠ id := fun same => gone (same ▸ member)
        rw [setJob_jobs, Function.update_of_ne apart] at found
        obtain ⟨free, once⟩ := exclusive.unleased _ _ found (List.mem_cons_of_mem _ member)
        exact ⟨free, Nat.le_trans (List.count_le_count_cons ..) once⟩
      · rw [List.map_append, List.map_singleton]
        refine List.nodup_append.mpr ⟨handed.distinct,
          List.nodup_cons.mpr ⟨List.not_mem_nil, List.nodup_nil⟩, ?_⟩
        rintro earlier member _ single rfl
        cases List.mem_singleton.mp single
        exact new member
      · intro current member
        rcases List.mem_append.mp member with member | member
        · exact handed.free _ member
        · cases List.mem_singleton.mp member
          exact ⟨job, handed.untouched id new ▸ live, free⟩
      · intro current member other found
        by_cases same : current.id = id
        · rw [same, setJob_jobs, Function.update_self, Option.some.injEq] at found
          subst found
          exact fun unleased => nomatch unleased
        · rw [setJob_jobs, Function.update_of_ne same] at found
          rcases List.mem_append.mp member with member | member
          · exact handed.leased _ member _ found
          · cases List.mem_singleton.mp member
            exact (same rfl).elim
      · intro other outside
        rw [List.map_append, List.mem_append, not_or, List.map_singleton,
          List.mem_singleton] at outside
        rw [setJob_jobs, Function.update_of_ne outside.2]
        exact handed.untouched other outside.1

/-- The jobs that were picked are leased one by one. -/
theorem leaseAll_exclusive (poll : Poll) (auditPossible : Bool) {start : Broker}
    (picked : List Nat) : ∀ dispatch : Dispatch, Exclusive dispatch.broker picked →
      Handed start dispatch →
        Exclusive (picked.foldl (leaseJob poll auditPossible) dispatch).broker [] ∧
          Handed start (picked.foldl (leaseJob poll auditPossible) dispatch) := by
  induction picked with
  | nil => exact fun _ exclusive handed => ⟨exclusive, handed⟩
  | cons id picked ih =>
      intro dispatch exclusive handed
      obtain ⟨exclusive, handed⟩ := leaseJob_exclusive poll auditPossible exclusive handed
      exact ih _ exclusive handed

/-- Taking the picked entries out of a queue keeps every job in at most one
place. -/
theorem setQueue_exclusive {host : String} {queue : List (Nat × Option Nat)}
    (exclusive : Exclusive broker []) (there : broker.queues host = some queue)
    (node cap : Nat) :
    Exclusive (broker.setQueue host (pick node cap queue).2) (pick node cap queue).1 := by
  have split := pick_perm node cap queue
  have counted : ∀ id, (pick node cap queue).1.count id +
      ((pick node cap queue).2.map Prod.fst).count id = (queue.map Prod.fst).count id := by
    intro id
    rw [← List.count_append]
    exact split.count_eq id
  have from_kept : ∀ {id}, id ∈ (pick node cap queue).2.map Prod.fst →
      id ∈ queue.map Prod.fst := fun member => split.subset (List.mem_append_right _ member)
  have from_picked : ∀ {id}, id ∈ (pick node cap queue).1 → id ∈ queue.map Prod.fst :=
    fun member => split.subset (List.mem_append_left _ member)
  constructor
  · intro other entries found id member
    rw [setQueue_queues] at found
    by_cases same : other = host
    · rw [same, Function.update_self, Option.some.injEq] at found
      subst found
      exact exclusive.bounded _ _ there _ (from_kept member)
    · rw [Function.update_of_ne same] at found
      exact exclusive.bounded _ _ found _ member
  · intro id job other entries live found member
    rw [setQueue_queues] at found
    by_cases same : other = host
    · subst same
      rw [Function.update_self, Option.some.injEq] at found
      subst found
      obtain ⟨home, free, once, _⟩ := exclusive.home _ _ _ _ live there (from_kept member)
      have kept := List.count_pos_iff.mpr member
      have total := counted id
      refine ⟨home, free, by omega, fun picked => ?_⟩
      have picked := List.count_pos_iff.mpr picked
      omega
    · rw [Function.update_of_ne same] at found
      obtain ⟨home, free, once, _⟩ := exclusive.home _ _ _ _ live found member
      refine ⟨home, free, once, fun picked => same ?_⟩
      exact home.symm.trans (exclusive.home _ _ _ _ live there (from_picked picked)).1
  · intro id job live member
    obtain ⟨_, free, once, _⟩ := exclusive.home _ _ _ _ live there (from_picked member)
    have total := counted id
    exact ⟨free, by omega⟩

/-- The jobs of a host are handed out, each once. -/
theorem takeHost_exclusive (poll : Poll) (auditPossible : Bool) {start : Broker}
    {dispatch : Dispatch} (host : String) (exclusive : Exclusive dispatch.broker [])
    (handed : Handed start dispatch) :
    Exclusive (takeHost poll auditPossible dispatch host).broker [] ∧
      Handed start (takeHost poll auditPossible dispatch host) := by
  unfold takeHost
  cases there : dispatch.broker.queues host with
  | none => exact ⟨exclusive, handed⟩
  | some queue =>
      exact leaseAll_exclusive poll auditPossible _ _ (setQueue_exclusive exclusive there _ _)
        ⟨handed.distinct, handed.free, handed.leased, handed.untouched⟩

/-- A twin is queued once. -/
theorem createTwin_exclusive (poll : Poll) (twin : Nat × String × String × String)
    (exclusive : Exclusive broker []) : Exclusive (createTwin poll broker twin) [] := by
  obtain ⟨primaryId, host, method, path⟩ := twin
  let inserted := { broker with nextId := broker.nextId + 1 }.setJob broker.nextId
    (newTwin poll primaryId host method path)
  have fresh : Exclusive inserted [] :=
    exclusive.insert (fun _ member => nomatch member) rfl rfl rfl
  have linked : Exclusive (inserted.linkTwin primaryId broker.nextId) [] := by
    unfold linkTwin
    cases live : inserted.jobs primaryId with
    | none => exact fresh
    | some job => exact fresh.setJob live rfl rfl
  have queues : (inserted.linkTwin primaryId broker.nextId).queues = broker.queues := by
    unfold linkTwin
    cases inserted.jobs primaryId <;> rfl
  have nextId : (inserted.linkTwin primaryId broker.nextId).nextId = broker.nextId + 1 := by
    unfold linkTwin
    cases inserted.jobs primaryId <;> rfl
  have outside : (inserted.linkTwin primaryId broker.nextId).Unqueued broker.nextId := by
    unfold Unqueued
    rw [queues]
    exact exclusive.unqueued_of_fresh
  have there : inserted.jobs broker.nextId = some (newTwin poll primaryId host method path) :=
    Function.update_self ..
  obtain ⟨twin, live, same⟩ := linkTwin_live broker.nextId primaryId there
  have queued := linked.enqueue live (congrArg JobState.lease same) outside
    (nextId ▸ Nat.lt_succ_self _) List.not_mem_nil (some poll.node)
  rw [show twin.host = host from congrArg JobState.host same] at queued
  exact queued.shrink rfl (Nat.le_refl _) fun _ current found => ⟨current, found, rfl, rfl⟩

/-- A poll keeps the queues exclusive, and hands out no job that is leased. -/
theorem takeJobs_exclusive (poll : Poll) (hosts : List String) (exclusive : Exclusive broker []) :
    Exclusive (broker.takeJobs poll hosts).1 [] ∧
      ReplyExclusive broker (broker.takeJobs poll hosts).2 := by
  unfold takeJobs
  have dispatched := List.foldlRecOn hosts
    (takeHost poll (broker.registry.activeNodeOtherThan poll.node poll.activeNow))
    (motive := fun dispatch => Exclusive dispatch.broker [] ∧ Handed broker dispatch)
    (b := { broker := broker, out := [], newTwins := [] })
    ⟨exclusive, List.nodup_nil, fun _ member => (List.not_mem_nil member).elim,
      fun _ member => (List.not_mem_nil member).elim, fun _ _ => rfl⟩
    fun dispatch invariant host _ => takeHost_exclusive poll _ host invariant.1 invariant.2
  refine ⟨?_, dispatched.2.distinct, dispatched.2.free⟩
  exact List.foldlRecOn _ (createTwin poll) (motive := fun current => Exclusive current [])
    dispatched.1 fun _ invariant twin _ => createTwin_exclusive poll twin invariant

/-! ## Results and expiry -/

section Results

variable {Value : Type} [DecidableEq Value] (fromStr : String → Option Value)

/-- An answer keeps the queues exclusive, unless it queues a job again. -/
theorem complete_exclusive (node : Nat) (result : JobResult) (nowUnixMs : Nat)
    (sound : Sound broker []) (exclusive : Exclusive broker [])
    (clean : ¬ broker.Requeues (.complete node result nowUnixMs)) :
    Exclusive (complete fromStr broker node result nowUnixMs) [] := by
  have leased : ∀ {job}, broker.jobs result.id = some job →
      (result.outcome = .keyRejected ∨ result.outcome = .failed ∧ job.attempts + 1 < maxAttempts) →
        broker.Unqueued result.id := by
    intro job live reported
    refine exclusive.unqueued_of_leased live fun unleased => clean ?_
    exact ⟨job, live, unleased, reported⟩
  have completion := complete_completion fromStr broker node result nowUnixMs
  generalize complete fromStr broker node result nowUnixMs = next at completion ⊢
  cases completion with
  | stale refused => exact exclusive
  | @delivered job body live _ _ =>
      have same := deliver_sameTable fromStr broker node result job body nowUnixMs
      have resolved := (drops_send _ job.responder body.response).trans
        (drops_removeJob broker result.id)
      refine (exclusive.drops resolved).shrink same.queues (Nat.le_of_eq same.nextId.symm) ?_
      exact fun other current found => ⟨current, same.jobs ▸ found, rfl, rfl⟩
  | keyRejected live _ outcome =>
      have marked : Exclusive (broker.markKeyBad node) [] :=
        exclusive.shrink rfl (Nat.le_refl _) fun _ current found => ⟨current, found, rfl, rfl⟩
      refine release_exclusive ?_ marked (fun _ _ => leased live (.inl outcome)) false
      exact sound.congr ⟨rfl, rfl, rfl, rfl, rfl⟩
  | @exhausted job live _ _ _ =>
      have failed : Exclusive (broker.setJob result.id job.failOnce) [] :=
        exclusive.setJob live rfl rfl
      exact failed.drops (drops_abandon _ _ _)
  | @requeued job live _ outcome within =>
      have failed : Exclusive (broker.setJob result.id job.failOnce) [] :=
        exclusive.setJob live rfl rfl
      exact release_exclusive (failOnce_sound sound live within) failed
        (fun _ _ => leased live (.inr ⟨outcome, within⟩)) false

/-- An expired job is leased until the sweeper reaches it. -/
theorem releaseAll_exclusive (start : Broker) (expired : List Nat) (distinct : expired.Nodup)
    (leased : ∀ id ∈ expired, ∀ job, start.jobs id = some job → job.lease ≠ none) :
    ∀ broker : Broker, Sound broker [] → Exclusive broker [] →
      (∀ id ∈ expired, ∀ job, broker.jobs id = some job → start.jobs id = some job) →
        Exclusive (broker.releaseAll expired) [] := by
  induction expired with
  | nil => exact fun _ _ exclusive _ => exclusive
  | cons id expired ih =>
      intro broker sound exclusive unchanged
      obtain ⟨absent, distinct⟩ := List.nodup_cons.mp distinct
      refine ih distinct (fun other member => leased other (List.mem_cons_of_mem _ member)) _
        (release_sound sound true) (release_exclusive sound exclusive ?_ true) ?_
      · intro job live
        exact exclusive.unqueued_of_leased live
          (leased id List.mem_cons_self job (unchanged id List.mem_cons_self job live))
      · intro other member job found
        have apart : other ≠ id := fun same => absent (same ▸ member)
        exact unchanged other (List.mem_cons_of_mem _ member) job
          (release_jobs_other apart true found)

/-- A fetch is queued once. -/
theorem fetch_exclusive (exclusive : Exclusive broker []) (host method path : String)
    (now : Nat) : Exclusive (broker.fetch host method path now) [] := by
  let opened := { broker with
    nextId := broker.nextId + 1, fetches := broker.nextId :: broker.fetches }.setJob broker.nextId
      (newPrimary broker.nextId host method path now)
  have fresh : Exclusive opened [] :=
    exclusive.insert (fun _ member => nomatch member) rfl rfl rfl
  have there : opened.jobs broker.nextId = some (newPrimary broker.nextId host method path now) :=
    Function.update_self ..
  exact fresh.enqueue there rfl exclusive.unqueued_of_fresh (Nat.lt_succ_self _) List.not_mem_nil _

/-- **One call** keeps the queues exclusive, unless it queues a job again. -/
theorem step_exclusive {call : Call} (sound : Sound broker []) (exclusive : Exclusive broker [])
    (clean : ¬ broker.Requeues call) (step : Step fromStr broker call next) :
    Exclusive next [] := by
  obtain ⟨admissible, rfl⟩ := step
  cases call with
  | fetch host method path now => exact fetch_exclusive exclusive host method path now
  | takeJobs poll hosts => exact (takeJobs_exclusive poll hosts exclusive).1
  | complete node result nowUnixMs =>
      exact complete_exclusive fromStr node result nowUnixMs sound exclusive clean
  | sweep now expired stale =>
      refine Exclusive.drops (releaseAll_exclusive broker expired admissible.1.1 ?_ broker sound
        exclusive fun _ _ _ found => found) (drops_dropTwins _ stale)
      intro id member job live
      obtain ⟨current, node, expiry, there, held, _⟩ := (admissible.1.2 id).mp member
      rw [live, Option.some.injEq] at there
      rw [there, held]
      exact fun unleased => nomatch unleased
  | enrollRuntime id name =>
      exact exclusive.shrink rfl (Nat.le_refl _) fun _ current found => ⟨current, found, rfl, rfl⟩
  | touch id now =>
      exact exclusive.shrink rfl (Nat.le_refl _) fun _ current found => ⟨current, found, rfl, rfl⟩

/-- Releasing a job that waits in its queue queues it twice. -/
theorem release_duplicates (sound : Sound broker []) (live : broker.jobs id = some job)
    (unleased : job.lease = none) : ¬ (broker.release id false).QueueInvariant := by
  obtain member | ⟨queue, there, member⟩ := sound.queued _ _ live unleased
  · cases member
  · have queued : (broker.release id false).queues job.host =
        some (queue ++ [(id, job.excludeNode)]) := by
      simp only [release, live, Bool.false_eq_true, false_and, ↓reduceIte, pushBack_queues,
        setJob_queues, there, Option.getD_some, Function.update_self]
    have still : (broker.release id false).jobs id = some (job.unlease false) := by
      simp only [release, live, Bool.false_eq_true, false_and, ↓reduceIte, pushBack_jobs,
        setJob_jobs, Function.update_self]
    have inside : id ∈ queue.map Prod.fst := List.mem_map.mpr ⟨_, member, rfl⟩
    intro invariant
    obtain ⟨_, once, _⟩ := invariant _ _ still _ _ queued
      (List.mem_map.mpr ⟨_, List.mem_append_left _ member, rfl⟩)
    rw [List.map_append, List.count_append, List.map_singleton, List.count_singleton_self] at once
    have twice := List.count_pos_iff.mpr inside
    omega

/-- A re-queueing call breaks the queue invariant at once. -/
theorem requeue_duplicates {call : Call} (sound : Sound broker []) (requeues : broker.Requeues call)
    (step : Step fromStr broker call next) : ¬ next.QueueInvariant := by
  obtain ⟨_, rfl⟩ := step
  cases call with
  | complete node result nowUnixMs =>
      obtain ⟨job, live, unleased, reported⟩ := requeues
      have accepted : job.accepts node = true := by simp only [JobState.accepts, unleased]
      rcases reported with rejected | ⟨failed, within⟩
      · have requeued : complete fromStr broker node result nowUnixMs =
            (broker.markKeyBad node).release result.id false := by
          simp only [complete, live, accepted, JobResult.auditBody, rejected, ↓reduceIte]
        change ¬ (complete fromStr broker node result nowUnixMs).QueueInvariant
        rw [requeued]
        have marked : Sound (broker.markKeyBad node) [] := sound.congr ⟨rfl, rfl, rfl, rfl, rfl⟩
        exact release_duplicates marked live unleased
      · have requeued : complete fromStr broker node result nowUnixMs =
            (broker.setJob result.id job.failOnce).release result.id false := by
          simp only [complete, live, accepted, JobResult.auditBody, failed, ↓reduceIte,
            reduceCtorEq, JobState.failOnce, Nat.not_le.mpr within]
        change ¬ (complete fromStr broker node result nowUnixMs).QueueInvariant
        rw [requeued]
        have there : (broker.setJob result.id job.failOnce).jobs result.id = some job.failOnce :=
          Function.update_self ..
        exact release_duplicates (failOnce_sound sound live within) there unleased
  | fetch => exact requeues.elim
  | takeJobs => exact requeues.elim
  | sweep => exact requeues.elim
  | enrollRuntime => exact requeues.elim
  | touch => exact requeues.elim

/-- **Queue exclusivity away from re-queued jobs.** In every run none of whose
calls reports a failure or a rejected key for a job that waits in its queue, the
queue invariant holds in every state reached, and every reply to a poll there
hands out distinct jobs, none of which another lease holds. The condition is
exact: from such a state, a call keeps the invariant if and only if it meets it. -/
theorem queues_exclusive_of_no_requeue {calls : List Call}
    (run : Run (fun source call target => ¬ source.Requeues call ∧ Step fromStr source call target)
      new calls broker) :
    broker.QueueInvariant ∧
      (∀ poll hosts, ReplyExclusive broker (broker.takeJobs poll hosts).2) ∧
      ∀ call next, Step fromStr broker call next →
        (next.QueueInvariant ↔ ¬ broker.Requeues call) := by
  have invariant : Sound broker [] ∧ Exclusive broker [] :=
    run.invariant (fun state => Sound state [] ∧ Exclusive state [])
      (fun _ _ _ held taken => ⟨step_sound fromStr held.1 taken.2,
        step_exclusive fromStr held.1 held.2 taken.1 taken.2⟩) ⟨sound_new, exclusive_new⟩
  obtain ⟨sound, exclusive⟩ := invariant
  refine ⟨exclusive.queueInvariant, fun poll hosts => (takeJobs_exclusive poll hosts exclusive).2,
    fun call next step => ⟨fun kept requeues => ?_, fun clean => ?_⟩⟩
  · exact requeue_duplicates fromStr sound requeues step kept
  · exact (step_exclusive fromStr sound exclusive clean step).queueInvariant

end Results

/-- What is said of a leased job queues it again at most once. -/
theorem not_requeues_of_leased {broker : Broker} {node nowUnixMs : Nat} {result : JobResult}
    (leased : ((broker.jobs result.id).all fun job => job.lease.isSome) = true) :
    ¬ broker.Requeues (.complete node result nowUnixMs) := by
  intro requeues
  obtain ⟨job, live, unleased, -⟩ := requeues
  rw [live, Option.all_some, unleased] at leased
  cases leased

/-- The holder of the lease reports a failure, a second node leases the job, and its answer comes
after the lease has expired. -/
theorem queues_exclusive_of_no_requeue_late :
    ∃ broker, Run (fun source call target => ¬ source.Requeues call ∧
          Step (fun text : String => some text) source call target) new
        [.fetch "europe" "match-v5.match" "/x" 0,
          .takeJobs ⟨1, fun _ => 0, 5, 5, fun _ => false⟩ ["europe"],
          .complete 1 ⟨1, .failed, none, none⟩ 6,
          .takeJobs ⟨2, fun _ => 0, 7, 7, fun _ => false⟩ ["europe"],
          .sweep 200000 [1] [],
          .complete 2 ⟨1, .ok, some "body", none⟩ 200001] broker ∧
      broker.QueueInvariant ∧
      ∀ poll hosts, ReplyExclusive broker (broker.takeJobs poll hosts).2 := by
  have grow : ∀ {calls : List Call} (call : Call),
      Run (fun source call target => ¬ source.Requeues call ∧
        Step (some : String → Option String) source call target) new calls (after some calls) →
      ¬ (after (some : String → Option String) calls).Requeues call →
      (after (some : String → Option String) calls).Admissible call →
      Run (fun source call target => ¬ source.Requeues call ∧
        Step (some : String → Option String) source call target) new (calls ++ [call])
          (after some (calls ++ [call])) :=
    fun call run clean admissible => run.append (.cons ⟨clean, step_after _ admissible⟩ (.nil _))
  have fetched := grow (.fetch "europe" "match-v5.match" "/x" 0) (.nil new) id trivial
  have leased := grow (.takeJobs ⟨1, fun _ => 0, 5, 5, fun _ => false⟩ ["europe"]) fetched id
    (enumerates_host (by decide) fun other distinct => Function.update_of_ne distinct ..)
  have reported := grow (.complete 1 ⟨1, .failed, none, none⟩ 6) leased
    (not_requeues_of_leased (by decide)) trivial
  have again := grow (.takeJobs ⟨2, fun _ => 0, 7, 7, fun _ => false⟩ ["europe"]) reported id
    (enumerates_host (by decide) fun other distinct => (Function.update_of_ne distinct ..).trans
      ((Function.update_of_ne distinct ..).trans (Function.update_of_ne distinct ..)))
  have expired := grow (.sweep 200000 [1] []) again id (by
    have sound := run_sound _ (again.mono fun _ _ _ step => step.2)
    exact ⟨sound.enumerates (fun id ⟨job, _, _, live, _⟩ => ⟨job, live⟩) (by decide) (by decide)
      (by decide), (releaseAll_sound [1] sound).enumerates (fun id ⟨job, live, _⟩ => ⟨job, live⟩)
        (by decide) (by decide) (by decide)⟩)
  have late := grow (.complete 2 ⟨1, .ok, some "body", none⟩ 200001) expired (by
    intro requeues
    obtain ⟨job, live, unleased, rejected | ⟨failed, -⟩⟩ := requeues
    · cases rejected
    · cases failed) trivial
  obtain ⟨invariant, replies, -⟩ := queues_exclusive_of_no_requeue _ late
  exact ⟨_, late, invariant, replies⟩

/-- A node reports a failure after the sweeper re-queued its job: the job is queued
twice, and the next poll is handed it twice. -/
theorem late_failure_duplicates_queue_entry :
    ∃ broker, Run (Step fun text : String => some text) new
        [.fetch "europe" "match-v5.match" "/x" 0,
          .takeJobs ⟨1, fun _ => 0, 5, 5, fun _ => false⟩ ["europe"],
          .sweep 200000 [1] [],
          .complete 1 ⟨1, .failed, none, none⟩ 200001] broker ∧
      ¬ broker.QueueInvariant ∧
      ((broker.takeJobs ⟨2, fun _ => 0, 200002, 200002, fun _ => false⟩ ["europe"]).2.map Job.id) =
        [1, 1] := by
  have fetched := run_after_concat (some : String → Option String)
    (.fetch "europe" "match-v5.match" "/x" 0) (.nil new) trivial
  have leased := run_after_concat _ (.takeJobs ⟨1, fun _ => 0, 5, 5, fun _ => false⟩ ["europe"])
    fetched (enumerates_host (by decide) fun other distinct => Function.update_of_ne distinct ..)
  have expired := run_after_concat _ (.sweep 200000 [1] []) leased <| by
    have sound := run_sound _ leased
    refine ⟨sound.enumerates (fun id ⟨job, _, _, live, _⟩ => ⟨job, live⟩) (by decide) (by decide)
      (by decide), (releaseAll_sound [1] sound).enumerates (fun id ⟨job, live, _⟩ => ⟨job, live⟩)
        (by decide) (by decide) (by decide)⟩
  have reported := run_after_concat _ (.complete 1 ⟨1, .failed, none, none⟩ 200001) expired trivial
  refine ⟨_, reported, fun invariant => ?_, by decide⟩
  obtain ⟨_, once, _⟩ := invariant 1 _ rfl "europe" _ rfl (by decide)
  exact absurd once (by decide)

end LolCrawler.Broker
