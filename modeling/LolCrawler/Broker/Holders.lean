import LolCrawler.Broker.Audits
import LolCrawler.Broker.Duplicates

/-! # Who answers a job

A ledger keeps, beside the broker, which job ids the polls have handed to which
nodes. Every lease is in the ledger, and no job is handed to the node it is kept
off (`Broker.Handled`). The lease check of `complete` asks the ledger's question only
while a job is leased. For a job without a lease it takes a report from any node, also
for jobs that no node was ever handed (`Broker.Stranger`).
-/

namespace LolCrawler.Broker

open Foundation

/-- The broker, and the pairs of node and job id that its polls have handed out. -/
structure Ledger where
  broker : Broker
  handed : List (Nat × Nat)

def Ledger.new : Ledger := ⟨Broker.new, []⟩

/-- What a call hands out. -/
def handedOut (broker : Broker) : Call → List (Nat × Nat)
  | .takeJobs poll hosts => (broker.takeJobs poll hosts).2.map fun job => (poll.node, job.id)
  | _ => []

/-- How often a job waits in the queue of a host. -/
def waiting (broker : Broker) (host : String) (id : Nat) : Nat :=
  (((broker.queues host).getD []).map Prod.fst).count id

/-- Whatever the result of a node did to a job or a fetch, the node had been handed that job,
and a twin's body is not from the node the twin is kept off. -/
structure ByHolder (ledger : Ledger) (node : Nat) (result : JobResult) (next : Broker) : Prop where
  resolved : ∀ channel answer, ledger.broker.channels channel = none →
    next.channels channel = some answer → (node, channel) ∈ ledger.handed
  ended : ledger.broker.jobs result.id ≠ none → next.jobs result.id = none →
    (node, result.id) ∈ ledger.handed
  counted : ∀ id job later, ledger.broker.jobs id = some job → next.jobs id = some later →
    job.attempts < later.attempts → (node, id) ∈ ledger.handed
  requeued : ∀ host id, ledger.broker.waiting host id < next.waiting host id →
    (node, id) ∈ ledger.handed
  twin : ∀ id job uploader body, ledger.broker.jobs id = some job → job.isTwin = true →
    ledger.broker.uploads id = none → next.uploads id = some (uploader, body) →
    job.excludeNode ≠ some uploader

/-- A report for a job without a lease, from a node that was never handed it. -/
def Ledger.Stranger (ledger : Ledger) (node : Nat) (result : JobResult) : Prop :=
  ∃ job, ledger.broker.jobs result.id = some job ∧ job.lease = none ∧
    (node, result.id) ∉ ledger.handed

/-- Leases and queue entries agree with the ledger. -/
structure Handled (broker : Broker) (handed : List (Nat × Nat)) : Prop where
  live : ∀ id job, broker.jobs id = some job → id < broker.nextId
  entry : ∀ host queue id exclude job, broker.queues host = some queue → (id, exclude) ∈ queue →
    broker.jobs id = some job → exclude = job.excludeNode
  bounded : ∀ host queue entry, broker.queues host = some queue → entry ∈ queue →
    entry.1 < broker.nextId
  lease : ∀ id job node expiry, broker.jobs id = some job → job.lease = some (node, expiry) →
    (node, id) ∈ handed
  allowed : ∀ node id, (node, id) ∈ handed → id < broker.nextId ∧
    ∀ job, broker.jobs id = some job → job.excludeNode ≠ some node

/-- In a new broker nothing is handed out. -/
theorem handled_new : Handled new [] where
  live := fun _ _ live => nomatch live
  entry := fun _ _ _ _ _ there => nomatch there
  bounded := fun _ _ _ there => nomatch there
  lease := fun _ _ _ _ live => nomatch live
  allowed := fun _ _ member => nomatch member

variable {broker next : Broker} {handed : List (Nat × Nat)} {id : Nat} {job : JobState}

namespace Handled

/-- Calls that only drop, release or queue existing jobs. -/
theorem shuffle (handled : Handled broker handed)
    (jobs : ∀ id job, next.jobs id = some job → ∃ old, broker.jobs id = some old ∧
      job.excludeNode = old.excludeNode ∧ ∀ holder, job.lease = some holder →
      old.lease = some holder)
    (queues : ∀ host queue entry, next.queues host = some queue → entry ∈ queue →
      (∃ other entries, broker.queues other = some entries ∧ entry ∈ entries) ∨
        ∃ job, broker.jobs entry.1 = some job ∧ entry.2 = job.excludeNode)
    (nextId : next.nextId = broker.nextId) : Handled next handed where
  live := by
    intro id job live
    obtain ⟨old, found, _⟩ := jobs id job live
    rw [nextId]
    exact handled.live id old found
  entry := by
    intro host queue id exclude job there member live
    obtain ⟨old, found, exclusion, _⟩ := jobs id job live
    rw [exclusion]
    rcases queues host queue _ there member with ⟨other, entries, before, inside⟩ | own
    · exact handled.entry _ _ _ _ _ before inside found
    · obtain ⟨current, same, exclude⟩ := own
      rw [found, Option.some.injEq] at same
      rw [same]
      exact exclude
  bounded := by
    intro host queue entry there member
    rw [nextId]
    rcases queues host queue entry there member with ⟨other, entries, before, inside⟩ | own
    · exact handled.bounded _ _ _ before inside
    · obtain ⟨current, same, _⟩ := own
      exact handled.live _ _ same
  lease := by
    intro id job node expiry live held
    obtain ⟨old, found, _, leased⟩ := jobs id job live
    exact handled.lease id old node expiry found (leased _ held)
  allowed := by
    intro node id member
    obtain ⟨below, keeps⟩ := handled.allowed node id member
    refine ⟨nextId ▸ below, fun job live => ?_⟩
    obtain ⟨old, found, exclusion, _⟩ := jobs id job live
    rw [exclusion]
    exact keeps old found

/-- Jobs that are dropped were handed out as before. -/
theorem drops (handled : Handled broker handed) (drops : Drops next broker) :
    Handled next handed :=
  handled.shuffle (fun id job live => ⟨job, drops.jobs id job live, rfl, fun _ held => held⟩)
    (fun host queue _ there member => .inl ⟨host, queue, drops.queues ▸ there, member⟩) drops.nextId

/-- Rewriting a live job without a new lease. -/
theorem setJob {old : JobState} (handled : Handled broker handed)
    (live : broker.jobs id = some old) (exclusion : job.excludeNode = old.excludeNode)
    (lease : ∀ holder, job.lease = some holder → old.lease = some holder) :
    Handled (broker.setJob id job) handed := by
  refine handled.shuffle (fun other current found => ?_)
    (fun host queue _ there member => .inl ⟨host, queue, there, member⟩) rfl
  rcases setJob_found found with ⟨rfl, rfl⟩ | ⟨_, before⟩
  · exact ⟨old, live, exclusion, lease⟩
  · exact ⟨current, before, rfl, fun _ held => held⟩

/-- Queueing a live job under its own exclusion. -/
theorem pushBack (handled : Handled broker handed) (live : broker.jobs id = some job)
    (host : String) : Handled (broker.pushBack host (id, job.excludeNode)) handed := by
  refine handled.shuffle (fun _ current found => ⟨current, found, rfl, fun _ held => held⟩) ?_ rfl
  intro other queue entry there member
  rw [pushBack_queues] at there
  by_cases same : other = host
  · subst same
    rw [Function.update_self, Option.some.injEq] at there
    subst there
    rcases List.mem_append.mp member with member | member
    · cases before : broker.queues other with
      | none =>
          rw [before] at member
          cases member
      | some entries =>
          rw [before] at member
          exact .inl ⟨other, entries, before, member⟩
    · cases List.mem_singleton.mp member
      exact .inr ⟨job, live, rfl⟩
  · rw [Function.update_of_ne same] at there
    exact .inl ⟨other, queue, there, member⟩

/-- A fresh job that no node has been handed. -/
theorem insert (handled : Handled broker handed) (unleased : job.lease = none)
    (queues : next.queues = broker.queues) (nextId : next.nextId = broker.nextId + 1)
    (jobs : next.jobs = Function.update broker.jobs broker.nextId (some job)) :
    Handled next handed := by
  have current : ∀ {id found}, next.jobs id = some found →
      id = broker.nextId ∧ found = job ∨ id ≠ broker.nextId ∧ broker.jobs id = some found := by
    intro id found there
    rw [jobs] at there
    exact setJob_found there
  constructor
  · intro id found there
    rw [nextId]
    rcases current there with ⟨rfl, _⟩ | ⟨_, before⟩
    · exact Nat.lt_succ_self _
    · exact Nat.lt_succ_of_lt (handled.live _ _ before)
  · intro host queue id exclude found there member live
    rw [queues] at there
    rcases current live with ⟨rfl, _⟩ | ⟨_, before⟩
    · exact absurd (handled.bounded _ _ _ there member) (Nat.lt_irrefl _)
    · exact handled.entry _ _ _ _ _ there member before
  · intro host queue entry there member
    rw [queues] at there
    rw [nextId]
    exact Nat.lt_succ_of_lt (handled.bounded _ _ _ there member)
  · intro id found node expiry live held
    rcases current live with ⟨_, rfl⟩ | ⟨_, before⟩
    · rw [unleased] at held
      cases held
    · exact handled.lease _ _ _ _ before held
  · intro node id member
    obtain ⟨below, keeps⟩ := handled.allowed node id member
    refine ⟨nextId ▸ Nat.lt_succ_of_lt below, fun found live => ?_⟩
    rcases current live with ⟨rfl, _⟩ | ⟨_, before⟩
    · exact absurd below (Nat.lt_irrefl _)
    · exact keeps _ before

/-- A lease that goes into the ledger. -/
theorem hand (handled : Handled broker handed)
    (live : broker.jobs id = some job) {node expiry : Nat}
    (keeps : job.excludeNode ≠ some node) :
    Handled (broker.setJob id { job with lease := some (node, expiry) })
      (handed ++ [(node, id)]) := by
  constructor
  · intro other found there
    rcases setJob_found there with ⟨rfl, _⟩ | ⟨_, before⟩
    · exact handled.live _ _ live
    · exact handled.live _ _ before
  · intro host queue other exclude found there member now
    rcases setJob_found now with ⟨rfl, rfl⟩ | ⟨_, before⟩
    · exact handled.entry host queue other exclude job there member live
    · exact handled.entry _ _ _ _ _ there member before
  · exact handled.bounded
  · intro other found holder expiry there held
    rcases setJob_found there with ⟨rfl, rfl⟩ | ⟨_, before⟩
    · cases held
      exact List.mem_append_right _ (List.mem_singleton_self _)
    · exact List.mem_append_left _ (handled.lease _ _ _ _ before held)
  · intro holder other member
    rcases List.mem_append.mp member with member | member
    · obtain ⟨below, allowed⟩ := handled.allowed holder other member
      refine ⟨below, fun found there => ?_⟩
      rcases setJob_found there with ⟨rfl, rfl⟩ | ⟨_, before⟩
      · exact allowed job live
      · exact allowed _ before
    · cases List.mem_singleton.mp member
      refine ⟨handled.live _ _ live, fun found there => ?_⟩
      rcases setJob_found there with ⟨_, rfl⟩ | ⟨apart, _⟩
      · exact keeps
      · exact (apart rfl).elim

end Handled

/-! ## The calls -/

/-- A lease that ends leaves what was handed out. -/
theorem release_handled (handled : Handled broker handed) (id : Nat) (countAttempt : Bool) :
    Handled (broker.release id countAttempt) handed := by
  unfold release
  cases live : broker.jobs id with
  | none => exact handled
  | some job =>
      have unleased : Handled (broker.setJob id (job.unlease countAttempt)) handed :=
        handled.setJob live rfl fun _ held => nomatch held
      simp only
      split
      · exact unleased.drops (drops_abandon _ _ _)
      · have there : (broker.setJob id (job.unlease countAttempt)).jobs id =
            some (job.unlease countAttempt) := Function.update_self ..
        exact unleased.pushBack there job.host

/-- The sweeper leaves what was handed out. -/
theorem sweep_handled (handled : Handled broker handed) (expired stale : List Nat) :
    Handled (broker.sweep expired stale) handed := by
  refine Handled.drops ?_ (drops_dropTwins _ stale)
  exact List.foldlRecOn expired _ (motive := fun current => Handled current handed) handled
    fun _ invariant id _ => release_handled invariant id true

/-- A fetch leaves what was handed out. -/
theorem fetch_handled (handled : Handled broker handed) (host method path : String) (now : Nat) :
    Handled (broker.fetch host method path now) handed := by
  have fresh : Handled ({ broker with
      nextId := broker.nextId + 1, fetches := broker.nextId :: broker.fetches }.setJob
        broker.nextId (newPrimary broker.nextId host method path now)) handed :=
    handled.insert rfl rfl rfl rfl
  exact fresh.pushBack (Function.update_self ..) host

/-- Leasing ids that do not exclude the node. -/
theorem leaseAll_handled (poll : Poll) (auditPossible : Bool) (picked : List Nat) :
    ∀ dispatch : Dispatch,
      Handled dispatch.broker (handed ++ dispatch.out.map fun job => (poll.node, job.id)) →
      (∀ id ∈ picked, ∀ job, dispatch.broker.jobs id = some job →
      job.excludeNode ≠ some poll.node) →
      Handled (picked.foldl (leaseJob poll auditPossible) dispatch).broker
        (handed ++ (picked.foldl (leaseJob poll auditPossible) dispatch).out.map
          fun job => (poll.node, job.id)) := by
  induction picked with
  | nil => exact fun _ handled _ => handled
  | cons id picked ih =>
      intro dispatch handled allowed
      cases live : dispatch.broker.jobs id with
      | none =>
          have skipped : leaseJob poll auditPossible dispatch id = dispatch := by
            simp only [leaseJob, live]
          rw [List.foldl_cons, skipped]
          exact ih dispatch handled fun other member =>
            allowed other (List.mem_cons_of_mem _ member)
      | some job =>
          have keeps := allowed id List.mem_cons_self job live
          refine ih _ ?_ fun other member current found => ?_
          · simp only [leaseJob, live, List.map_append, List.map_singleton, ← List.append_assoc]
            exact handled.hand live keeps
          · simp only [leaseJob, live] at found
            rcases setJob_found found with ⟨_, rfl⟩ | ⟨_, before⟩
            · exact keeps
            · exact allowed other (List.mem_cons_of_mem _ member) current before

/-- The jobs of a host are handed out to the node that polls. -/
theorem takeHost_handled (poll : Poll) (auditPossible : Bool) (dispatch : Dispatch) (host : String)
    (handled : Handled dispatch.broker
      (handed ++ dispatch.out.map fun job => (poll.node, job.id))) :
    Handled (takeHost poll auditPossible dispatch host).broker
      (handed ++ (takeHost poll auditPossible dispatch host).out.map
        fun job => (poll.node, job.id)) := by
  unfold takeHost
  cases there : dispatch.broker.queues host with
  | none => exact handled
  | some queue =>
      refine leaseAll_handled poll auditPossible _ _ ?_ ?_
      · refine handled.shuffle (fun _ found live => ⟨found, live, rfl, fun _ held => held⟩) ?_ rfl
        intro other entries entry found member
        exact .inl (setQueue_entries there (pick_kept _ _ _) found member)
      · intro id member job live
        obtain ⟨exclude, inside, allowed⟩ := pick_allowed _ _ _ id member
        exact handled.entry _ _ _ _ _ there inside live ▸ allowed

/-- A twin that is queued is not handed out yet. -/
theorem createTwin_handled (poll : Poll) (twin : Nat × String × String × String)
    (handled : Handled broker handed) : Handled (createTwin poll broker twin) handed := by
  obtain ⟨primaryId, host, method, path⟩ := twin
  let inserted := { broker with nextId := broker.nextId + 1 }.setJob broker.nextId
    (newTwin poll primaryId host method path)
  have fresh : Handled inserted handed := handled.insert rfl rfl rfl rfl
  have linked : Handled (inserted.linkTwin primaryId broker.nextId) handed := by
    unfold linkTwin
    cases live : inserted.jobs primaryId with
    | none => exact fresh
    | some job => exact fresh.setJob live rfl fun _ held => held
  have there : inserted.jobs broker.nextId = some (newTwin poll primaryId host method path) :=
    Function.update_self ..
  obtain ⟨twin, live, same⟩ := linkTwin_live broker.nextId primaryId there
  have queued := linked.pushBack live host
  rw [show twin.excludeNode = some poll.node from congrArg JobState.excludeNode same] at queued
  exact queued.shuffle (fun _ current found => ⟨current, found, rfl, fun _ held => held⟩)
    (fun other queue _ found member => .inl ⟨other, queue, found, member⟩) rfl

/-- A poll hands out its reply. -/
theorem takeJobs_handled (poll : Poll) (hosts : List String) (handled : Handled broker handed) :
    Handled (broker.takeJobs poll hosts).1
      (handed ++ (broker.takeJobs poll hosts).2.map fun job => (poll.node, job.id)) := by
  unfold takeJobs
  have dispatched := List.foldlRecOn hosts
    (takeHost poll (broker.registry.activeNodeOtherThan poll.node poll.activeNow))
    (motive := fun dispatch => Handled dispatch.broker
      (handed ++ dispatch.out.map fun job => (poll.node, job.id)))
    (b := { broker := broker, out := [], newTwins := [] })
    (by simpa only [List.map_nil, List.append_nil] using handled)
    fun dispatch invariant host _ => takeHost_handled poll _ dispatch host invariant
  exact List.foldlRecOn _ (createTwin poll) (motive := fun current => Handled current _) dispatched
    fun _ invariant twin _ => createTwin_handled poll twin invariant

section Results

variable {Value : Type} [DecidableEq Value] (fromStr : String → Option Value)

/-- A body only leaves the job table smaller. -/
theorem deliver_uploads (broker : Broker) (node : Nat) (result : JobResult) (job : JobState)
    (body : AuditBody) (nowUnixMs : Nat) :
    (deliver fromStr broker node result job body nowUnixMs).uploads =
      Function.update broker.uploads result.id (some (node, body)) := by
  have finished : ∀ (broker : Broker) (twinId : Nat),
      (finishAuditIfReady fromStr broker twinId).uploads = broker.uploads := by
    intro broker twinId
    unfold finishAuditIfReady
    cases broker.audits twinId with
    | none => rfl
    | some pair =>
        simp only
        split <;> rfl
  have filed : ∀ (broker : Broker) (twinId : Nat) (change : AuditPair → AuditPair),
      (broker.setPairBody twinId change).uploads = broker.uploads := by
    intro broker twinId change
    unfold setPairBody
    cases broker.audits twinId <;> rfl
  have credited : (((broker.removeJob result.id).send job.responder body.response).credit node
      result job body nowUnixMs).uploads =
      Function.update broker.uploads result.id (some (node, body)) := by
    rw [credit, send_uploads, removeJob_uploads]
  unfold deliver fileBody
  simp only
  split
  · rw [finished, filed, credited]
  · cases job.twinId with
    | none => exact credited
    | some twinId =>
        simp only
        rw [finished, filed, credited]

/-- An answer that is accepted leaves what was handed out. -/
theorem deliver_drops (broker : Broker) (node : Nat) (result : JobResult) (job : JobState)
    (body : AuditBody) (nowUnixMs : Nat) (handled : Handled broker handed) :
    Handled (deliver fromStr broker node result job body nowUnixMs) handed := by
  have same := deliver_sameTable fromStr broker node result job body nowUnixMs
  have resolved := (drops_send _ job.responder body.response).trans
    (drops_removeJob broker result.id)
  refine (handled.drops resolved).shuffle ?_ ?_ same.nextId
  · exact fun id current found => ⟨current, same.jobs ▸ found, rfl, fun _ held => held⟩
  · exact fun host queue _ there member => .inl ⟨host, queue, same.queues ▸ there, member⟩

/-- Any answer leaves what was handed out. -/
theorem complete_handled (node : Nat) (result : JobResult) (nowUnixMs : Nat)
    (handled : Handled broker handed) :
    Handled (complete fromStr broker node result nowUnixMs) handed := by
  have completion := complete_completion fromStr broker node result nowUnixMs
  generalize complete fromStr broker node result nowUnixMs = next at completion ⊢
  cases completion with
  | stale refused => exact handled
  | delivered live accepted filed => exact deliver_drops fromStr _ _ _ _ _ _ handled
  | keyRejected live accepted outcome =>
      have marked : Handled (broker.markKeyBad node) handed :=
        handled.drops { Drops.rfl broker with }
      exact release_handled marked _ _
  | @exhausted job live accepted outcome reached =>
      have failed : Handled (broker.setJob result.id job.failOnce) handed :=
        handled.setJob live rfl fun _ held => held
      exact failed.drops (drops_abandon _ _ _)
  | @requeued job live accepted outcome within =>
      have failed : Handled (broker.setJob result.id job.failOnce) handed :=
        handled.setJob live rfl fun _ held => held
      exact release_handled failed _ _

/-- A call on the broker, and what it hands out. -/
def Ledger.Step (ledger : Ledger) (call : Call) (next : Ledger) : Prop :=
  Broker.Step fromStr ledger.broker call next.broker ∧
    next.handed = ledger.handed ++ handedOut ledger.broker call

/-- **One call** keeps account of what is handed out. -/
theorem step_handled {ledger next : Ledger} {call : Call}
    (handled : Handled ledger.broker ledger.handed) (step : Ledger.Step fromStr ledger call next) :
    Handled next.broker next.handed := by
  obtain ⟨⟨_, broker⟩, handed⟩ := step
  rw [broker, handed]
  cases call with
  | takeJobs poll hosts => exact takeJobs_handled poll hosts handled
  | fetch host method path now =>
      simp only [handedOut, List.append_nil]
      exact fetch_handled handled host method path now
  | complete node result nowUnixMs =>
      simp only [handedOut, List.append_nil]
      exact complete_handled fromStr node result nowUnixMs handled
  | sweep now expired stale =>
      simp only [handedOut, List.append_nil]
      exact sweep_handled handled expired stale
  | enrollRuntime id name =>
      simp only [handedOut, List.append_nil]
      exact handled.drops { Drops.rfl ledger.broker with }
  | touch id now =>
      simp only [handedOut, List.append_nil]
      exact handled.drops { Drops.rfl ledger.broker with }

/-! ## What a result touches -/

/-- A lease that ends queues no other job. -/
theorem release_waiting_other (broker : Broker) {other : Nat} (apart : other ≠ id) (host : String) :
    (broker.release id false).waiting host other = broker.waiting host other := by
  unfold release
  cases live : broker.jobs id with
  | none => rfl
  | some job =>
      simp only [Bool.false_eq_true, false_and, ↓reduceIte, waiting, pushBack_queues, setJob_queues]
      by_cases same : host = job.host
      · rw [same, Function.update_self, Option.getD_some, List.map_append, List.count_append,
          List.map_singleton, List.count_singleton, beq_eq_false_iff_ne.mpr apart.symm]
        rfl
      · rw [Function.update_of_ne same]

/-- A result leaves the counters and the queue entries of all other jobs alone. -/
theorem complete_other (node : Nat) (result : JobResult) (nowUnixMs : Nat) {other : Nat}
    (apart : other ≠ result.id) :
    (∀ later, (complete fromStr broker node result nowUnixMs).jobs other = some later →
        broker.jobs other = some later) ∧
      ∀ host, (complete fromStr broker node result nowUnixMs).waiting host other =
        broker.waiting host other := by
  have completion := complete_completion fromStr broker node result nowUnixMs
  generalize complete fromStr broker node result nowUnixMs = next at completion ⊢
  cases completion with
  | stale refused => exact ⟨fun _ found => found, fun _ => rfl⟩
  | @delivered job body _ _ _ =>
      have same := deliver_sameTable fromStr broker node result job body nowUnixMs
      refine ⟨fun later found => ?_, fun host => ?_⟩
      · rw [same.jobs, send_jobs] at found
        exact of_update_none found
      · rw [waiting, same.queues, send_queues]
        rfl
  | keyRejected _ _ _ =>
      refine ⟨fun later found => ?_, fun host => release_waiting_other _ apart host⟩
      have before : (broker.markKeyBad node).jobs other = some later :=
        release_jobs_other apart false found
      exact before
  | @exhausted job _ _ _ _ =>
      have drops := drops_abandon (broker.setJob result.id job.failOnce) result.id
        (result.error.getD "failed")
      refine ⟨fun later found => ?_, fun host => ?_⟩
      · rcases setJob_found (drops.jobs other later found) with ⟨same, _⟩ | ⟨_, before⟩
        · exact (apart same).elim
        · exact before
      · rw [waiting, drops.queues]
        rfl
  | @requeued job _ _ _ _ =>
      refine ⟨fun later found => ?_, fun host => ?_⟩
      · rcases setJob_found (release_jobs_other apart false found) with ⟨same, _⟩ | ⟨_, before⟩
        · exact (apart same).elim
        · exact before
      · exact release_waiting_other _ apart host

/-- A lease that ends uploads nothing. -/
theorem release_uploads (broker : Broker) (id : Nat) :
    (broker.release id false).uploads = broker.uploads := by
  unfold release
  cases broker.jobs id with
  | none => rfl
  | some job =>
      simp only [Bool.false_eq_true, false_and, ↓reduceIte, pushBack_uploads, setJob_uploads]

/-- A new upload is the body of this result. -/
theorem complete_uploads (node : Nat) (result : JobResult) (nowUnixMs : Nat) {other uploader : Nat}
    {body : AuditBody} (silent : broker.uploads other = none)
    (there : (complete fromStr broker node result nowUnixMs).uploads other = some
    (uploader, body)) :
    other = result.id ∧ uploader = node := by
  have completion := complete_completion fromStr broker node result nowUnixMs
  generalize complete fromStr broker node result nowUnixMs = next at completion there
  cases completion with
  | stale refused =>
      rw [silent] at there
      cases there
  | delivered _ _ _ =>
      rw [deliver_uploads] at there
      by_cases same : other = result.id
      · rw [same, Function.update_self] at there
        cases there
        exact ⟨same, rfl⟩
      · rw [Function.update_of_ne same, silent] at there
        cases there
  | keyRejected _ _ _ =>
      rw [release_uploads, markKeyBad_uploads, silent] at there
      cases there
  | exhausted _ _ _ _ =>
      rw [(drops_abandon _ _ _).uploads, setJob_uploads, silent] at there
      cases there
  | requeued _ _ _ _ =>
      rw [release_uploads, setJob_uploads, silent] at there
      cases there

/-- A result of a node that was handed its job. -/
theorem byHolder_of_handed {ledger : Ledger} (node : Nat) (result : JobResult) (nowUnixMs : Nat)
    (sound : Sound ledger.broker []) (handled : Handled ledger.broker ledger.handed)
    (member : (node, result.id) ∈ ledger.handed) :
    ByHolder ledger node result (complete fromStr ledger.broker node result nowUnixMs) := by
  refine ⟨fun channel answer silent answered => ?_, fun _ _ => member,
    fun id job later before after more => ?_, fun host id more => ?_,
    fun id job uploader body live _ silent there => ?_⟩
  · cases complete_resolves fromStr node result nowUnixMs sound silent answered <;> exact member
  · by_cases same : id = result.id
    · exact same ▸ member
    · rw [(complete_other fromStr node result nowUnixMs same).1 later after,
        Option.some.injEq] at before
      subst before
      exact absurd more (Nat.lt_irrefl _)
  · by_cases same : id = result.id
    · exact same ▸ member
    · rw [(complete_other fromStr node result nowUnixMs same).2 host] at more
      exact absurd more (Nat.lt_irrefl _)
  · obtain ⟨rfl, rfl⟩ := complete_uploads fromStr node result nowUnixMs silent there
    exact (handled.allowed _ _ member).2 job live

/-- A refused result does nothing that is left to a holder. -/
theorem byHolder_of_refused {ledger : Ledger} (node : Nat) (result : JobResult) (nowUnixMs : Nat)
    (refused : ∀ job, ledger.broker.jobs result.id = some job → job.accepts node = false) :
    ByHolder ledger node result (complete fromStr ledger.broker node result nowUnixMs) := by
  rw [complete_of_refused fromStr nowUnixMs refused]
  refine ⟨fun channel answer silent answered => ?_, fun live gone => (live gone).elim,
    fun id job later before after more => ?_, fun host id more => absurd more (Nat.lt_irrefl _),
    fun id job uploader body _ _ silent there => ?_⟩
  · rw [silent] at answered
    cases answered
  · rw [before, Option.some.injEq] at after
    subst after
    exact absurd more (Nat.lt_irrefl _)
  · rw [silent] at there
    cases there

/-- A stranger's result ends the job, or counts against it, or queues it. -/
theorem stranger_touches {ledger : Ledger} {node : Nat} {result : JobResult}
    (stranger : ledger.Stranger node result) (nowUnixMs : Nat) :
    ¬ ByHolder ledger node result (complete fromStr ledger.broker node result nowUnixMs) := by
  intro byHolder
  obtain ⟨job, live, unleased, outside⟩ := stranger
  have accepts : job.accepts node = true := by simp only [JobState.accepts, unleased]
  have there : ledger.broker.jobs result.id ≠ none := by rw [live]; simp
  have completion := complete_completion fromStr ledger.broker node result nowUnixMs
  generalize complete fromStr ledger.broker node result nowUnixMs = next at completion byHolder
  cases completion with
  | stale refused =>
      rw [refused job live] at accepts
      cases accepts
  | delivered _ _ _ => exact outside (byHolder.ended there (deliver_jobs_self fromStr _ _ _ _ _ _))
  | keyRejected _ _ _ =>
      apply outside
      apply byHolder.requeued job.host
      rw [waiting, waiting, release_queues_self (ledger.broker.markKeyBad node) live]
      simp
  | exhausted _ _ _ _ => exact outside (byHolder.ended there (abandon_jobs_self _ _ _))
  | @requeued current found _ _ _ =>
      rw [live, Option.some.injEq] at found
      subst found
      have failed : (ledger.broker.setJob result.id job.failOnce).jobs result.id =
          some job.failOnce := Function.update_self ..
      apply outside
      apply byHolder.counted result.id job _ live (release_jobs_self _ failed)
      exact Nat.lt_succ_self _

/-- **Only holders answer, strangers apart.** In every reachable state, what a result does is
done by a node that was handed the job if and only if the result is no stranger's. -/
theorem answers_by_holder_iff {calls : List Call} {ledger : Ledger}
    (run : Run (Ledger.Step fromStr) Ledger.new calls ledger) (node : Nat) (result : JobResult)
    (nowUnixMs : Nat) :
    ByHolder ledger node result (complete fromStr ledger.broker node result nowUnixMs) ↔
      ¬ ledger.Stranger node result := by
  have both : Sound ledger.broker [] ∧ Handled ledger.broker ledger.handed :=
    run.invariant (fun ledger => Sound ledger.broker [] ∧ Handled ledger.broker ledger.handed)
      (fun _ _ _ held step => ⟨step_sound fromStr held.1 step.1, step_handled fromStr held.2 step⟩)
      ⟨sound_new, handled_new⟩
  obtain ⟨sound, handled⟩ := both
  refine ⟨fun byHolder stranger => stranger_touches fromStr stranger nowUnixMs byHolder,
    fun known => ?_⟩
  by_cases member : (node, result.id) ∈ ledger.handed
  · exact byHolder_of_handed fromStr node result nowUnixMs sound handled member
  · apply byHolder_of_refused fromStr node result nowUnixMs
    intro job live
    cases lease : job.lease with
    | none => exact (known ⟨job, live, lease, member⟩).elim
    | some holder =>
        obtain ⟨owner, expiry⟩ := holder
        have other : owner ≠ node := by
          rintro rfl
          exact member (handled.lease _ _ _ _ live lease)
        simp only [JobState.accepts, lease, other, decide_false]

/-- The ledger after a call. -/
def Ledger.apply (ledger : Ledger) (call : Call) : Ledger :=
  ⟨ledger.broker.apply fromStr call, ledger.handed ++ handedOut ledger.broker call⟩

/-- A run of the broker is one of the ledger. -/
theorem Ledger.run_of_run {calls : List Call} {ledger : Ledger} {target : Broker}
    (run : Run (Broker.Step fromStr) ledger.broker calls target) :
    Run (Ledger.Step fromStr) ledger calls (calls.foldl (Ledger.apply fromStr) ledger) := by
  induction calls generalizing ledger with
  | nil => exact .nil _
  | cons call calls ih =>
      cases run with
      | cons first rest =>
          obtain ⟨admissible, rfl⟩ := first
          have after : (Ledger.apply fromStr ledger call).broker = ledger.broker.apply
            fromStr call :=
            rfl
          rw [← after] at rest
          exact .cons ⟨⟨admissible, rfl⟩, rfl⟩ (ih rest)

end Results

/-- Node 1 holds an audited primary, and its twin waits for another node. -/
def clonedCalls : List Call :=
  [.enrollRuntime 1 "a", .enrollRuntime 2 "b", .touch 1 0, .touch 2 0,
    .fetch "europe" "match-v5.match" "/x" 0,
    .takeJobs ⟨1, fun _ => 0, 5, 5, fun _ => true⟩ ["europe"]]

def clonedLedger : Ledger :=
  clonedCalls.foldl (Ledger.apply (some : String → Option String)) Ledger.new

/-- The ledger of the cloned job is reached. -/
theorem clonedLedger_run :
    Run (Ledger.Step (some : String → Option String)) Ledger.new clonedCalls clonedLedger := by
  have calls : Run (Step (some : String → Option String)) Ledger.new.broker clonedCalls
      (after some clonedCalls) := by
    refine .cons ⟨trivial, rfl⟩ <| .cons ⟨trivial, rfl⟩ <| .cons ⟨trivial, rfl⟩ <|
      .cons ⟨trivial, rfl⟩ <| .cons ⟨trivial, rfl⟩ <|
      .cons ⟨enumerates_host (by decide) ?_, rfl⟩ (.nil _)
    exact fun other distinct => Function.update_of_ne distinct ..
  exact Ledger.run_of_run _ calls

/-- The holder of the primary answers it. -/
theorem answers_by_holder_iff_cloned :
    ByHolder clonedLedger 1 ⟨1, .ok, some "1", none⟩
        (complete (some : String → Option String) clonedLedger.broker 1
          ⟨1, .ok, some "1", none⟩ 6) ↔
      ¬ clonedLedger.Stranger 1 ⟨1, .ok, some "1", none⟩ :=
  answers_by_holder_iff some clonedLedger_run 1 ⟨1, .ok, some "1", none⟩ 6

/-- Node 1 posts the next id, which is the twin that is kept off it, and the twin's body comes
from node 1. -/
theorem excluded_node_answers_twin :
    Run (Ledger.Step (some : String → Option String)) Ledger.new clonedCalls clonedLedger ∧
      (clonedLedger.broker.jobs 2).map (fun job => (job.isTwin, job.excludeNode)) =
        some (true, some 1) ∧
      (complete (some : String → Option String) clonedLedger.broker 1
        ⟨2, .ok, some "1", none⟩ 6).uploads 2 = some (1, .found "1") ∧
      ¬ ByHolder clonedLedger 1 ⟨2, .ok, some "1", none⟩
        (complete (some : String → Option String) clonedLedger.broker 1
          ⟨2, .ok, some "1", none⟩ 6) := by
  refine ⟨clonedLedger_run, by decide, by decide, fun byHolder => ?_⟩
  have member := byHolder.ended (by decide) (by decide)
  revert member
  decide

end LolCrawler.Broker
