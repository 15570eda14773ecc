import LolCrawler.Broker.TopUp

/-! # What a poll leaves to the other nodes

A poll takes entries from the queues, and it clones some of the jobs it hands out for other nodes.
So a node that had nothing to run at a host may have something to run after a poll of another
node, exactly when that poll cloned a job of the host (`takeJobs_queued`).
-/

namespace LolCrawler.Broker

open Foundation

/-- Some entry in the queue of a host is of a job that the node may run. -/
def Queued (broker : Broker) (node : Nat) (host : String) : Prop :=
  ∃ entry ∈ broker.queue host, broker.mayRun node entry.1 = true

/-- A primary that has no twin. -/
def auditable (broker : Broker) (id : Nat) : Bool :=
  (broker.jobs id).any fun job => !job.isTwin && job.twinId.isNone

/-- The jobs that a poll hands out. -/
def handout (broker : Broker) (poll : Poll) (hosts : List String) : List Job :=
  hosts.flatMap fun host => (broker.taken poll host).1.filterMap broker.offer

/-- Those of the jobs handed out that are cloned for an audit. -/
def cloned (broker : Broker) (poll : Poll) (jobs : List Job) : List Job :=
  (jobs.zipIdx.filter fun entry => broker.auditable entry.1.id &&
    broker.registry.activeNodeOtherThan poll.node poll.activeNow && poll.dice entry.2).map Prod.fst

variable {broker next : Broker} {handed : List (Nat × Nat)}

/-- A job is queued for a node if and only if the node can be given one. -/
theorem queued_iff (broker : Broker) (node : Nat) (host : String) :
    broker.Queued node host ↔ broker.dispatchable node host ≠ [] := by
  constructor
  · rintro ⟨entry, inside, runs⟩
    refine List.ne_nil_of_mem (a := entry.1) (List.mem_eraseDups.mpr ?_)
    exact List.mem_filter.mpr ⟨List.mem_map_of_mem inside, runs⟩
  · intro some
    obtain ⟨id, inside⟩ := List.exists_mem_of_ne_nil _ some
    obtain ⟨member, runs⟩ := List.mem_filter.mp (List.mem_eraseDups.mp inside)
    obtain ⟨entry, there, rfl⟩ := List.mem_map.mp member
    exact ⟨entry, there, runs⟩

/-- Who may run a job is told by the job. -/
theorem mayRun_of_jobs {id : Nat} (same : next.jobs id = broker.jobs id) (node : Nat) :
    next.mayRun node id = broker.mayRun node id := by
  rw [mayRun, mayRun, same]

/-- Dropping jobs queues nothing. -/
theorem Drops.queued (drops : Drops next broker) {node : Nat} {host : String}
    (queued : next.Queued node host) : broker.Queued node host := by
  obtain ⟨entry, inside, runs⟩ := queued
  refine ⟨entry, ?_, ?_⟩
  · rwa [queue, drops.queues] at inside
  · cases live : next.jobs entry.1 with
    | none =>
        rw [mayRun, live] at runs
        cases runs
    | some job => rwa [mayRun_of_jobs (live.trans (drops.jobs entry.1 job live).symm)] at runs

/-- The same table queues the same jobs. -/
theorem SameTable.queued (same : SameTable next broker) {node : Nat} {host : String}
    (queued : next.Queued node host) : broker.Queued node host := by
  obtain ⟨entry, inside, runs⟩ := queued
  refine ⟨entry, ?_, ?_⟩
  · rwa [queue, same.queues] at inside
  · rwa [mayRun_of_jobs (congrFun same.jobs entry.1)] at runs

/-! ## The dispatch -/

/-- What the dispatch has done so far. -/
structure Dispatched (broker : Broker) (poll : Poll) (auditPossible : Bool) (dispatch : Dispatch) :
    Prop where
  /-- Leased jobs are nothing to run. -/
  runs : ∀ node id, dispatch.broker.mayRun node id = true → broker.mayRun node id = true
  /-- Only jobs that are handed out are leased. -/
  others : ∀ id, id ∉ dispatch.out.map Job.id → dispatch.broker.jobs id = broker.jobs id
  auditable : ∀ id, dispatch.broker.auditable id = broker.auditable id
  twins : dispatch.newTwins = (dispatch.out.zipIdx.filter fun entry =>
    broker.auditable entry.1.id && auditPossible && poll.dice entry.2).map
      fun entry => (entry.1.id, entry.1.host, entry.1.method, entry.1.path)

/-- A job that is leased is dispatched, and cloned if it is due. -/
theorem leaseJob_dispatched (poll : Poll) (auditPossible : Bool) (dispatch : Dispatch) (id : Nat)
    (dispatched : Dispatched broker poll auditPossible dispatch) :
    Dispatched broker poll auditPossible (leaseJob poll auditPossible dispatch id) := by
  unfold leaseJob
  cases live : dispatch.broker.jobs id with
  | none => exact dispatched
  | some job =>
      have audits : (!job.isTwin && job.twinId.isNone) = broker.auditable id := by
        rw [← dispatched.auditable id, auditable, live]
        rfl
      refine ⟨fun node other runs => ?_, fun other outside => ?_, fun other => ?_, ?_⟩
      · refine dispatched.runs node other ?_
        by_cases same : other = id
        · rw [mayRun, same, setJob_jobs, Function.update_self] at runs
          cases runs
        · rwa [mayRun, setJob_jobs, Function.update_of_ne same] at runs
      · rw [List.map_append, List.mem_append, not_or] at outside
        have distinct : other ≠ id := fun same => outside.2 (List.mem_singleton.mpr same)
        rw [setJob_jobs, Function.update_of_ne distinct]
        exact dispatched.others other outside.1
      · rw [← dispatched.auditable other, auditable, auditable, setJob_jobs]
        by_cases same : other = id
        · rw [same, Function.update_self, live]
          rfl
        · rw [Function.update_of_ne same]
      · dsimp only
        rw [audits, dispatched.twins, List.zipIdx_append, List.filter_append, List.map_append,
          List.zipIdx_singleton, Nat.zero_add]
        cases rolled : broker.auditable id && auditPossible && poll.dice dispatch.out.length with
        | true => simp only [List.filter_cons, rolled, ↓reduceIte, List.filter_nil, List.map_cons,
            List.map_nil]
        | false => simp only [List.filter_cons, rolled, Bool.false_eq_true, ↓reduceIte,
            List.filter_nil, List.map_nil, List.append_nil]

/-- The jobs of a host are dispatched, and cloned if they are due. -/
theorem takeHost_dispatched (poll : Poll) (auditPossible : Bool) (dispatch : Dispatch)
    (host : String) (dispatched : Dispatched broker poll auditPossible dispatch) :
    Dispatched broker poll auditPossible (takeHost poll auditPossible dispatch host) := by
  unfold takeHost
  cases there : dispatch.broker.queues host with
  | none => exact dispatched
  | some queue =>
      refine List.foldlRecOn _ _ (motive := Dispatched broker poll auditPossible) ?_
        fun current invariant id _ => leaseJob_dispatched poll auditPossible current id invariant
      exact ⟨dispatched.runs, dispatched.others, dispatched.auditable, dispatched.twins⟩

/-- The dispatch of a poll. -/
def dispatch (broker : Broker) (poll : Poll) (hosts : List String) : Dispatch :=
  hosts.foldl (takeHost poll (broker.registry.activeNodeOtherThan poll.node poll.activeNow))
    { broker := broker, out := [], newTwins := [] }

/-- The first part of a poll dispatches its jobs. -/
theorem dispatch_dispatched (broker : Broker) (poll : Poll) (hosts : List String) :
    Dispatched broker poll (broker.registry.activeNodeOtherThan poll.node poll.activeNow)
      (broker.dispatch poll hosts) :=
  List.foldlRecOn hosts _ ⟨fun _ _ runs => runs, fun _ _ => rfl, fun _ => rfl, rfl⟩
    fun current invariant host _ => takeHost_dispatched poll _ current host invariant

/-! ## The twins -/

/-- A twin that is linked is in no queue yet. -/
theorem linkTwin_queues (broker : Broker) (primaryId twinId : Nat) :
    (broker.linkTwin primaryId twinId).queues = broker.queues := by
  unfold linkTwin
  split <;> rfl

/-- A link is nothing to a queue. -/
theorem linkTwin_mayRun (broker : Broker) (primaryId twinId node id : Nat) :
    (broker.linkTwin primaryId twinId).mayRun node id = broker.mayRun node id := by
  unfold linkTwin
  cases live : broker.jobs primaryId with
  | none => rfl
  | some job =>
      simp only
      rw [mayRun, mayRun, setJob_jobs]
      by_cases same : id = primaryId
      · rw [same, Function.update_self, live]
        rfl
      · rw [Function.update_of_ne same]

/-- One twin is for the other nodes to run. -/
theorem createTwin_queued (poll : Poll) (twin : Nat × String × String × String)
    (handled : Handled broker handed) (node : Nat) (host : String) :
    (createTwin poll broker twin).Queued node host ↔
      broker.Queued node host ∨ node ≠ poll.node ∧ twin.2.1 = host := by
  obtain ⟨primaryId, own, method, path⟩ := twin
  have runs : ∀ id, (createTwin poll broker (primaryId, own, method, path)).mayRun node id =
      if id = broker.nextId then decide (node ≠ poll.node) else broker.mayRun node id := by
    intro id
    have linked := linkTwin_mayRun ({ broker with nextId := broker.nextId + 1 }.setJob
      broker.nextId (newTwin poll primaryId own method path)) primaryId broker.nextId node id
    refine Eq.trans (b := (({ broker with nextId := broker.nextId + 1 }.setJob
      broker.nextId (newTwin poll primaryId own method path)).linkTwin primaryId
        broker.nextId).mayRun node id) rfl (linked.trans ?_)
    rw [mayRun, setJob_jobs]
    by_cases same : id = broker.nextId
    · rw [same, Function.update_self, if_pos rfl]
      simp only [newTwin, Option.any_some, Option.isNone_none, Bool.true_and, Option.some.injEq,
        ne_eq, eq_comm]
    · rw [Function.update_of_ne same, if_neg same, mayRun]
  have queues : (createTwin poll broker (primaryId, own, method, path)).queue host =
      broker.queue host ++ if host = own then [(broker.nextId, some poll.node)] else [] := by
    rw [queue, createTwin]
    dsimp only
    rw [setAudit_queues, pushBack_queues, linkTwin_queues]
    by_cases same : host = own
    · rw [same, Function.update_self, if_pos rfl]
      rfl
    · rw [Function.update_of_ne same, if_neg same, List.append_nil]
      rfl
  have old : ∀ entry ∈ broker.queue host, entry.1 ≠ broker.nextId := by
    intro entry inside
    cases there : broker.queues host with
    | none =>
        rw [queue, there] at inside
        cases inside
    | some entries =>
        rw [queue, there] at inside
        exact Nat.ne_of_lt (handled.bounded host entries entry there inside)
  constructor
  · rintro ⟨entry, inside, free⟩
    rw [runs] at free
    rw [queues] at inside
    rcases List.mem_append.mp inside with inside | inside
    · rw [if_neg (old entry inside)] at free
      exact .inl ⟨entry, inside, free⟩
    · by_cases same : host = own
      · rw [if_pos same] at inside
        rw [List.mem_singleton.mp inside, if_pos rfl] at free
        exact .inr ⟨of_decide_eq_true free, same.symm⟩
      · rw [if_neg same] at inside
        cases inside
  · rintro (⟨entry, inside, free⟩ | ⟨distinct, same⟩)
    · refine ⟨entry, queues ▸ List.mem_append_left _ inside, ?_⟩
      rw [runs, if_neg (old entry inside)]
      exact free
    · refine ⟨(broker.nextId, some poll.node), ?_, ?_⟩
      · rw [queues, if_pos same.symm]
        exact List.mem_append_right _ List.mem_cons_self
      · rw [runs, if_pos rfl]
        exact decide_eq_true distinct

/-- After the twins are queued a node has what it had, and the twins of others. -/
theorem createTwins_queued (poll : Poll) (twins : List (Nat × String × String × String))
    (handled : Handled broker handed) (node : Nat) (host : String) :
    (twins.foldl (createTwin poll) broker).Queued node host ↔
      broker.Queued node host ∨ node ≠ poll.node ∧ ∃ twin ∈ twins, twin.2.1 = host := by
  induction twins generalizing broker with
  | nil =>
      simp only [List.foldl_nil, List.not_mem_nil, false_and, exists_false, and_false, or_false]
  | cons twin twins ih =>
      rw [List.foldl_cons, ih (createTwin_handled poll twin handled),
        createTwin_queued poll twin handled, or_assoc, ← and_or_left, List.exists_mem_cons_iff]

/-! ## The poll -/

variable {poll : Poll} {hosts : List String}

/-- A poll returns what the hosts hand out. -/
theorem takeJobs_snd (poll : Poll) (distinct : hosts.Nodup) :
    (broker.takeJobs poll hosts).2 = broker.handout poll hosts :=
  (takeHosts_spec poll (broker.registry.activeNodeOtherThan poll.node poll.activeNow) distinct
    { broker := broker, out := [], newTwins := [] }).1

/-- After the first part of a poll the queues have what was left. -/
theorem dispatch_queue (poll : Poll) (distinct : hosts.Nodup) (host : String) :
    (broker.dispatch poll hosts).broker.queue host =
      if host ∈ hosts then (broker.taken poll host).2 else broker.queue host :=
  (takeHosts_spec poll (broker.registry.activeNodeOtherThan poll.node poll.activeNow) distinct
    { broker := broker, out := [], newTwins := [] }).2.2 host

/-- The new twins of a host are those of the jobs that it cloned. -/
theorem dispatch_twins (poll : Poll) (distinct : hosts.Nodup) (host : String) :
    (∃ twin ∈ (broker.dispatch poll hosts).newTwins, twin.2.1 = host) ↔
      ∃ job ∈ broker.cloned poll (broker.handout poll hosts), job.host = host := by
  rw [(broker.dispatch_dispatched poll hosts).twins, cloned,
    show (broker.dispatch poll hosts).out = broker.handout poll hosts from
      takeJobs_snd poll distinct]
  simp only [List.mem_map, exists_exists_and_eq_and]

/-- The first part of a poll hands out its jobs. -/
theorem dispatch_handled (poll : Poll) (hosts : List String) (handled : Handled broker handed) :
    Handled (broker.dispatch poll hosts).broker
      (handed ++ (broker.dispatch poll hosts).out.map fun job => (poll.node, job.id)) :=
  List.foldlRecOn hosts _
    (motive := fun current => Handled current.broker
      (handed ++ current.out.map fun job => (poll.node, job.id)))
    (by simpa only [List.map_nil, List.append_nil] using handled)
    fun current invariant host _ => takeHost_handled poll _ current host invariant

/-- What the dispatch leaves to run was there before. -/
theorem dispatch_queued (poll : Poll) (distinct : hosts.Nodup) {node : Nat} {host : String}
    (queued : (broker.dispatch poll hosts).broker.Queued node host) : broker.Queued node host := by
  obtain ⟨entry, inside, runs⟩ := queued
  refine ⟨entry, ?_, (broker.dispatch_dispatched poll hosts).runs node entry.1 runs⟩
  rw [dispatch_queue poll distinct] at inside
  split at inside
  · exact pick_kept _ _ _ _ inside
  · exact inside

/-- **Polling and the other nodes.** After a poll a node has something to run at a host that it had
nothing to run at only if it is another node and the poll cloned a job of the host. -/
theorem takeJobs_queued (handled : Handled broker handed) (distinct : hosts.Nodup) {node : Nat}
    {host : String} (queued : (broker.takeJobs poll hosts).1.Queued node host) :
    broker.Queued node host ∨
      node ≠ poll.node ∧
        ∃ job ∈ broker.cloned poll (broker.handout poll hosts), job.host = host := by
  have twins := createTwins_queued poll (broker.dispatch poll hosts).newTwins
    (dispatch_handled poll hosts handled) node host
  rw [dispatch_twins poll distinct] at twins
  exact (twins.mp queued).imp_left (dispatch_queued poll distinct)

/-- Every clone is something to run for the other nodes. -/
theorem takeJobs_clones (handled : Handled broker handed) (distinct : hosts.Nodup) {node : Nat}
    (other : node ≠ poll.node) {job : Job}
    (cloned : job ∈ broker.cloned poll (broker.handout poll hosts)) :
    (broker.takeJobs poll hosts).1.Queued node job.host := by
  have twins := createTwins_queued poll (broker.dispatch poll hosts).newTwins
    (dispatch_handled poll hosts handled) node job.host
  rw [dispatch_twins poll distinct] at twins
  exact twins.mpr (.inr ⟨other, job, cloned, rfl⟩)

/-- A poll that is handed nothing takes nothing from anybody. -/
theorem takeJobs_idle (handled : Handled broker handed) (distinct : hosts.Nodup)
    (idle : broker.handout poll hosts = []) {node : Nat} {host : String}
    (queued : broker.Queued node host) : (broker.takeJobs poll hosts).1.Queued node host := by
  refine (createTwins_queued poll (broker.dispatch poll hosts).newTwins
    (dispatch_handled poll hosts handled) node host).mpr (.inl ?_)
  have nothing : (broker.dispatch poll hosts).out = [] := (takeJobs_snd poll distinct).trans idle
  obtain ⟨entry, inside, runs⟩ := queued
  refine ⟨entry, ?_, ?_⟩
  · rw [dispatch_queue poll distinct]
    split
    · next visited =>
        refine (mem_pick poll.node entry (room poll host) _ inside).resolve_left fun picked => ?_
        have gone : broker.offer entry.1 = none :=
          List.filterMap_eq_nil_iff.mp (List.flatMap_eq_nil_iff.mp idle host visited) entry.1 picked
        rw [offer, Option.map_eq_none_iff] at gone
        rw [mayRun, gone] at runs
        cases runs
    · exact inside
  · rw [mayRun_of_jobs ((broker.dispatch_dispatched poll hosts).others entry.1 ?_)]
    · exact runs
    · rw [nothing]
      exact List.not_mem_nil

end LolCrawler.Broker
