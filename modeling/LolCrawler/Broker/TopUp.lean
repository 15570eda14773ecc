import LolCrawler.Foundation.Firsts
import LolCrawler.Broker.Holders

/-! # Topping up

A poll is to be handed, for each host, the first jobs in the queue that its node may run, as
many as the inflight target leaves room for. `take_jobs` cuts the queue first and then skips
the entries whose jobs are gone, and it leases whatever is live. So it tops up exactly when
the part of a queue that it cuts off is clean (`takeJobs_tops_up_iff`).
-/

namespace LolCrawler.Broker

open Foundation

/-- What a node is handed of a job. -/
def offer (broker : Broker) (id : Nat) : Option Job :=
  (broker.jobs id).map fun job =>
    { id := id, host := job.host, method := job.method, path := job.path, leaseMs := leaseMs }

def live (broker : Broker) (id : Nat) : Bool := (broker.jobs id).isSome

def unleased (broker : Broker) (id : Nat) : Bool :=
  (broker.jobs id).any fun job => job.lease.isNone

/-- A live unleased job that is not kept off the node. -/
def mayRun (broker : Broker) (node : Nat) (id : Nat) : Bool :=
  (broker.jobs id).any fun job => job.lease.isNone && job.excludeNode ≠ some node

def queue (broker : Broker) (host : String) : List (Nat × Option Nat) :=
  (broker.queues host).getD []

/-- The distinct jobs queued for a host that the node may run, in the order of the queue. -/
def dispatchable (broker : Broker) (node : Nat) (host : String) : List Nat :=
  (((broker.queue host).map Prod.fst).filter (broker.mayRun node)).eraseDups

/-- How many more jobs of a host the node takes. -/
def room (poll : Poll) (host : String) : Nat := targetInflightPerHost - poll.pending host

/-- The entries of a queue that do not exclude the node. -/
def eligible (broker : Broker) (node : Nat) (host : String) : List Nat :=
  ((broker.queue host).filter fun entry => entry.2 ≠ some node).map Prod.fst

/-- What a poll is to do. -/
structure ToppedUp (broker : Broker) (poll : Poll) (next : Broker) (reply : List Job) : Prop where
  /-- For each host the first jobs that the node may run, as many as there is room for. -/
  jobs : ∀ host, (reply.filter fun job => job.host = host).map Job.id =
    (broker.dispatchable poll.node host).take (room poll host)
  /-- The live entries that are not handed out stay queued in their order, before any new twin. -/
  order : ∀ host, ((next.queue host).filter fun entry => entry.1 < broker.nextId &&
      broker.live entry.1 && entry.1 ∉ reply.map Job.id) =
    (broker.queue host).filter fun entry => broker.live entry.1 && entry.1 ∉ reply.map Job.id
  /-- Nothing is handed out only if there is nothing for the node where it has room. -/
  idle : reply = [] → ∀ host, 0 < room poll host → broker.dispatchable poll.node host = []

/-- Of the entries that fit into the room, the live ones are unleased and there once, and none is
of a job that is gone unless nothing else waits for the node. -/
structure Clean (broker : Broker) (poll : Poll) (host : String) : Prop where
  unleased : ∀ id ∈ (broker.eligible poll.node host).take (room poll host),
    broker.live id = true → broker.unleased id = true
  once : (((broker.eligible poll.node host).take (room poll host)).filter broker.live).Nodup
  live : (∀ id ∈ (broker.eligible poll.node host).take (room poll host), broker.live id = true) ∨
    ∀ id ∈ broker.eligible poll.node host, broker.unleased id = true →
      id ∈ (broker.eligible poll.node host).take (room poll host)

/-! ## Queues and hosts -/

/-- Entries wait in the queue of their job's host. -/
def Homed (broker : Broker) : Prop :=
  ∀ host queue entry job, broker.queues host = some queue → entry ∈ queue →
    broker.jobs entry.1 = some job → job.host = host

variable {broker next : Broker} {handed : List (Nat × Nat)} {id : Nat} {job : JobState}

namespace Homed

/-- Calls that only drop, release or queue existing jobs. -/
theorem shuffle (homed : Homed broker)
    (jobs : ∀ id job, next.jobs id = some job → ∃ old, broker.jobs id = some old ∧
      job.host = old.host)
    (queues : ∀ host queue entry, next.queues host = some queue → entry ∈ queue →
      (∃ entries, broker.queues host = some entries ∧ entry ∈ entries) ∨
        ∃ old, broker.jobs entry.1 = some old ∧ old.host = host) : Homed next := by
  intro host queue entry job there member live
  obtain ⟨old, found, same⟩ := jobs entry.1 job live
  rw [same]
  rcases queues host queue entry there member with ⟨entries, before, inside⟩ | ⟨own, there, home⟩
  · exact homed host entries entry old before inside found
  · rw [found, Option.some.injEq] at there
    rw [there]
    exact home

/-- Entries stay at home while jobs are dropped. -/
theorem drops (homed : Homed broker) (drops : Drops next broker) : Homed next :=
  homed.shuffle (fun id job live => ⟨job, drops.jobs id job live, rfl⟩)
    fun _ queue _ there member => .inl ⟨queue, drops.queues ▸ there, member⟩

/-- A job that changes stays on its host. -/
theorem setJob {old : JobState} (homed : Homed broker) (live : broker.jobs id = some old)
    (host : job.host = old.host) : Homed (broker.setJob id job) := by
  refine homed.shuffle (fun other current found => ?_)
    fun _ queue _ there member => .inl ⟨queue, there, member⟩
  rcases setJob_found found with ⟨rfl, rfl⟩ | ⟨_, before⟩
  · exact ⟨old, live, host⟩
  · exact ⟨current, before, rfl⟩

/-- An entry is queued at the host of its job. -/
theorem pushBack (homed : Homed broker) (live : broker.jobs id = some job)
    (exclude : Option Nat) : Homed (broker.pushBack job.host (id, exclude)) := by
  refine homed.shuffle (fun _ current found => ⟨current, found, rfl⟩) ?_
  intro host queue entry there member
  rw [pushBack_queues] at there
  by_cases same : host = job.host
  · subst same
    rw [Function.update_self, Option.some.injEq] at there
    subst there
    rcases List.mem_append.mp member with member | member
    · cases before : broker.queues job.host with
      | none =>
          rw [before] at member
          cases member
      | some entries =>
          rw [before] at member
          exact .inl ⟨entries, rfl, member⟩
    · cases List.mem_singleton.mp member
      exact .inr ⟨job, live, rfl⟩
  · rw [Function.update_of_ne same] at there
    exact .inl ⟨queue, there, member⟩

/-- A new job has no entry yet. -/
theorem insert (homed : Homed broker) (handled : Handled broker handed)
    (queues : next.queues = broker.queues)
    (jobs : next.jobs = Function.update broker.jobs broker.nextId (some job)) : Homed next := by
  intro host queue entry found there member live
  rw [queues] at there
  rw [jobs] at live
  rcases setJob_found live with ⟨fresh, _⟩ | ⟨_, before⟩
  · have below := handled.bounded host queue entry there member
    rw [fresh] at below
    exact absurd below (Nat.lt_irrefl _)
  · exact homed host queue entry found there member before

end Homed

/-- A lease that ends queues its job at home. -/
theorem release_homed (homed : Homed broker) (id : Nat) (countAttempt : Bool) :
    Homed (broker.release id countAttempt) := by
  unfold release
  cases live : broker.jobs id with
  | none => exact homed
  | some job =>
      have given : Homed (broker.setJob id (job.unlease countAttempt)) := homed.setJob live rfl
      simp only
      split
      · exact given.drops (drops_abandon _ _ _)
      · have there : (broker.setJob id (job.unlease countAttempt)).jobs id =
            some (job.unlease countAttempt) := Function.update_self ..
        exact given.pushBack there job.excludeNode

/-- A fetch queues its job at home. -/
theorem fetch_homed (homed : Homed broker) (handled : Handled broker handed)
    (host method path : String) (now : Nat) : Homed (broker.fetch host method path now) := by
  have fresh : Homed ({ broker with
      nextId := broker.nextId + 1, fetches := broker.nextId :: broker.fetches }.setJob
        broker.nextId (newPrimary broker.nextId host method path now)) :=
    homed.insert handled rfl rfl
  have there : ({ broker with
      nextId := broker.nextId + 1, fetches := broker.nextId :: broker.fetches }.setJob
        broker.nextId (newPrimary broker.nextId host method path now)).jobs broker.nextId =
          some (newPrimary broker.nextId host method path now) := Function.update_self ..
  exact fresh.pushBack there none

/-- A lease leaves the entries at home. -/
theorem leaseJob_homed (poll : Poll) (auditPossible : Bool) (dispatch : Dispatch) (id : Nat)
    (homed : Homed dispatch.broker) : Homed (leaseJob poll auditPossible dispatch id).broker := by
  unfold leaseJob
  cases live : dispatch.broker.jobs id with
  | none => exact homed
  | some job => exact homed.setJob live rfl

/-- The jobs of a host are handed out, and the other entries stay at home. -/
theorem takeHost_homed (poll : Poll) (auditPossible : Bool) (dispatch : Dispatch) (host : String)
    (homed : Homed dispatch.broker) : Homed (takeHost poll auditPossible dispatch host).broker := by
  unfold takeHost
  cases there : dispatch.broker.queues host with
  | none => exact homed
  | some queue =>
      refine List.foldlRecOn _ _ (motive := fun current => Homed current.broker) ?_
        fun current invariant id _ => leaseJob_homed poll auditPossible current id invariant
      refine homed.shuffle (fun _ found live => ⟨found, live, rfl⟩) ?_
      intro other entries entry found member
      rw [setQueue_queues] at found
      by_cases same : other = host
      · subst same
        rw [Function.update_self, Option.some.injEq] at found
        subst found
        exact .inl ⟨queue, there, pick_kept _ _ _ _ member⟩
      · rw [Function.update_of_ne same] at found
        exact .inl ⟨entries, found, member⟩

/-- A twin is queued at home. -/
theorem createTwin_homed (poll : Poll) (twin : Nat × String × String × String)
    (handled : Handled broker handed) (homed : Homed broker) :
    Homed (createTwin poll broker twin) := by
  obtain ⟨primaryId, host, method, path⟩ := twin
  have inserted : Homed ({ broker with nextId := broker.nextId + 1 }.setJob broker.nextId
      (newTwin poll primaryId host method path)) := homed.insert handled rfl rfl
  have there : ({ broker with nextId := broker.nextId + 1 }.setJob broker.nextId
      (newTwin poll primaryId host method path)).jobs broker.nextId =
        some (newTwin poll primaryId host method path) := Function.update_self ..
  have linked : Homed (({ broker with nextId := broker.nextId + 1 }.setJob broker.nextId
      (newTwin poll primaryId host method path)).linkTwin primaryId broker.nextId) := by
    unfold linkTwin
    split
    · exact inserted
    · next live => exact inserted.setJob live rfl
  obtain ⟨twin, live, same⟩ := linkTwin_live broker.nextId primaryId there
  have queued := linked.pushBack live (some poll.node)
  rw [show twin.host = host from congrArg JobState.host same] at queued
  exact queued.shuffle (fun _ current found => ⟨current, found, rfl⟩)
    fun _ queue _ found member => .inl ⟨queue, found, member⟩

/-- A poll leaves the entries at home. -/
theorem takeJobs_homed (poll : Poll) (hosts : List String) (handled : Handled broker handed)
    (homed : Homed broker) : Homed (broker.takeJobs poll hosts).1 := by
  unfold takeJobs
  have dispatched := List.foldlRecOn hosts
    (takeHost poll (broker.registry.activeNodeOtherThan poll.node poll.activeNow))
    (motive := fun dispatch => Handled dispatch.broker
      (handed ++ dispatch.out.map fun job => (poll.node, job.id)) ∧ Homed dispatch.broker)
    (b := { broker := broker, out := [], newTwins := [] })
    ⟨by simpa only [List.map_nil, List.append_nil] using handled, homed⟩
    fun dispatch invariant host _ => ⟨takeHost_handled poll _ dispatch host invariant.1,
      takeHost_homed poll _ dispatch host invariant.2⟩
  have twins := List.foldlRecOn (hosts.foldl
      (takeHost poll (broker.registry.activeNodeOtherThan poll.node poll.activeNow))
      { broker := broker, out := [], newTwins := [] }).newTwins (createTwin poll)
    (motive := fun current => Handled current _ ∧ Homed current) dispatched
    fun _ invariant twin _ => ⟨createTwin_handled poll twin invariant.1,
      createTwin_homed poll twin invariant.1 invariant.2⟩
  exact twins.2

section Results

variable {Value : Type} [DecidableEq Value] (fromStr : String → Option Value)

/-- An answer leaves the entries at home. -/
theorem complete_homed (node : Nat) (result : JobResult) (nowUnixMs : Nat)
    (homed : Homed broker) : Homed (complete fromStr broker node result nowUnixMs) := by
  have completion := complete_completion fromStr broker node result nowUnixMs
  generalize complete fromStr broker node result nowUnixMs = next at completion ⊢
  cases completion with
  | stale refused => exact homed
  | @delivered job body live accepted filed =>
      have same := deliver_sameTable fromStr broker node result job body nowUnixMs
      have resolved := homed.drops ((drops_send _ job.responder body.response).trans
        (drops_removeJob broker result.id))
      exact resolved.shuffle
        (fun id current found => ⟨current, same.jobs ▸ found, rfl⟩)
        fun _ queue _ there member => .inl ⟨queue, same.queues ▸ there, member⟩
  | keyRejected live accepted outcome =>
      have marked : Homed (broker.markKeyBad node) := homed.drops { Drops.rfl broker with }
      exact release_homed marked _ _
  | @exhausted job live accepted outcome reached =>
      have failed : Homed (broker.setJob result.id job.failOnce) := homed.setJob live rfl
      exact failed.drops (drops_abandon _ _ _)
  | @requeued job live accepted outcome within =>
      have failed : Homed (broker.setJob result.id job.failOnce) := homed.setJob live rfl
      exact release_homed failed _ _

/-- **One call** leaves the entries at home. -/
theorem step_homed {ledger next : Ledger} {call : Call}
    (handled : Handled ledger.broker ledger.handed) (homed : Homed ledger.broker)
    (step : Ledger.Step fromStr ledger call next) : Homed next.broker := by
  obtain ⟨⟨-, same⟩, -⟩ := step
  rw [same]
  cases call with
  | takeJobs poll hosts => exact takeJobs_homed poll hosts handled homed
  | fetch host method path now => exact fetch_homed homed handled host method path now
  | complete node result nowUnixMs => exact complete_homed fromStr node result nowUnixMs homed
  | sweep now expired stale =>
      refine Homed.drops ?_ (drops_dropTwins _ stale)
      exact List.foldlRecOn expired _ (motive := fun current => Homed current) homed
        fun _ invariant id _ => release_homed invariant id true
  | enrollRuntime id name => exact homed.drops { Drops.rfl ledger.broker with }
  | touch id now => exact homed.drops { Drops.rfl ledger.broker with }

/-- In every state of every run entries wait where their jobs belong, under their exclusions. -/
theorem run_homed {calls : List Call} (run : Run (Step fromStr) new calls broker) :
    Homed broker ∧ ∃ handed, Handled broker handed := by
  refine run.invariant (fun broker => Homed broker ∧ ∃ handed, Handled broker handed) ?_
    ⟨fun _ _ _ _ there => (Option.some_ne_none _ there.symm).elim, [], handled_new⟩
  rintro source call target ⟨homed, handed, handled⟩ step
  have entered : Ledger.Step fromStr ⟨source, handed⟩ call
      ⟨target, handed ++ handedOut source call⟩ := ⟨step, rfl⟩
  exact ⟨step_homed fromStr handled homed entered, _, step_handled fromStr handled entered⟩

end Results

/-! ## The dispatch -/

/-- The poll takes the first jobs that the node may run. -/
theorem pick_fst (node : Nat) : ∀ (cap : Nat) (queue : List (Nat × Option Nat)),
    (pick node cap queue).1 =
      ((queue.filter fun entry => entry.2 ≠ some node).map Prod.fst).take cap
  | 0, queue => by
      rw [pick, List.take_zero]
  | _ + 1, [] => rfl
  | cap + 1, entry :: queue => by
      rw [pick]
      by_cases excluded : entry.2 = some node
      · rw [if_pos excluded, List.filter_cons_of_neg (by simpa using excluded)]
        exact pick_fst node (cap + 1) queue
      · rw [if_neg excluded, List.filter_cons_of_pos (by simpa using excluded), List.map_cons,
          List.take_succ_cons]
        exact congrArg (entry.1 :: ·) (pick_fst node cap queue)

/-- What stays keeps its order. -/
theorem pick_snd (node : Nat) (stays : Nat → Bool) :
    ∀ (cap : Nat) (queue : List (Nat × Option Nat)),
      (∀ id ∈ (pick node cap queue).1, stays id = false) →
      (pick node cap queue).2.filter (fun entry => stays entry.1) =
        queue.filter fun entry => stays entry.1
  | 0, _, _ => by rw [pick]
  | _ + 1, [], _ => by rw [pick]
  | cap + 1, entry :: queue, goes => by
      rw [pick] at goes ⊢
      by_cases excluded : entry.2 = some node
      · rw [if_pos excluded] at goes ⊢
        rw [List.filter_cons, List.filter_cons, ← pick_snd node stays (cap + 1) queue goes]
      · rw [if_neg excluded] at goes ⊢
        rw [List.forall_mem_cons] at goes
        have gone : ¬ (stays entry.1 = true) := by
          rw [goes.1]
          exact Bool.false_ne_true
        have rest : (entry :: queue).filter (fun entry => stays entry.1) =
            queue.filter fun entry => stays entry.1 := List.filter_cons_of_neg gone
        rw [rest]
        exact pick_snd node stays cap queue goes.2

/-- Leasing changes nothing that a node is told of a job. -/
theorem leaseJob_spec (poll : Poll) (auditPossible : Bool) (dispatch : Dispatch) (id : Nat) :
    (leaseJob poll auditPossible dispatch id).out =
        dispatch.out ++ (dispatch.broker.offer id).toList ∧
      (leaseJob poll auditPossible dispatch id).broker.offer = dispatch.broker.offer ∧
      (leaseJob poll auditPossible dispatch id).broker.queues = dispatch.broker.queues ∧
      (leaseJob poll auditPossible dispatch id).broker.nextId = dispatch.broker.nextId := by
  unfold leaseJob
  cases there : dispatch.broker.jobs id with
  | none =>
      refine ⟨?_, rfl, rfl, rfl⟩
      rw [offer, there]
      exact (List.append_nil _).symm
  | some job =>
      refine ⟨?_, ?_, rfl, rfl⟩
      · rw [offer, there]
        rfl
      · funext other
        rw [offer, offer, setJob_jobs]
        by_cases same : other = id
        · subst same
          rw [Function.update_self, there]
          rfl
        · rw [Function.update_of_ne same]

/-- The leased jobs are handed out in order. -/
theorem leaseAll_spec (poll : Poll) (auditPossible : Bool) (picked : List Nat) :
    ∀ dispatch : Dispatch,
      (picked.foldl (leaseJob poll auditPossible) dispatch).out =
          dispatch.out ++ picked.filterMap dispatch.broker.offer ∧
        (picked.foldl (leaseJob poll auditPossible) dispatch).broker.offer =
          dispatch.broker.offer ∧
        (picked.foldl (leaseJob poll auditPossible) dispatch).broker.queues =
          dispatch.broker.queues ∧
        (picked.foldl (leaseJob poll auditPossible) dispatch).broker.nextId =
          dispatch.broker.nextId := by
  induction picked with
  | nil => exact fun dispatch => ⟨(List.append_nil _).symm, rfl, rfl, rfl⟩
  | cons id picked ih =>
      intro dispatch
      obtain ⟨out, offers, queues, nextId⟩ := leaseJob_spec poll auditPossible dispatch id
      obtain ⟨outs, allOffers, allQueues, allNextId⟩ := ih (leaseJob poll auditPossible dispatch id)
      refine ⟨?_, allOffers.trans offers, allQueues.trans queues, allNextId.trans nextId⟩
      rw [List.foldl_cons, outs, out, offers, List.append_assoc]
      congr 1
      cases found : dispatch.broker.offer id with
      | none => rw [List.filterMap_cons_none found]; rfl
      | some job => rw [List.filterMap_cons_some found]; rfl

/-- The jobs of a host that a poll leases, and what is left of its queue. -/
def taken (broker : Broker) (poll : Poll) (host : String) : List Nat × List (Nat × Option Nat) :=
  pick poll.node (room poll host) (broker.queue host)

/-- The jobs of one host are handed out, and no other queue changes. -/
theorem takeHost_spec (poll : Poll) (auditPossible : Bool) (dispatch : Dispatch) (host : String) :
    (takeHost poll auditPossible dispatch host).out =
        dispatch.out ++ (dispatch.broker.taken poll host).1.filterMap dispatch.broker.offer ∧
      (takeHost poll auditPossible dispatch host).broker.offer = dispatch.broker.offer ∧
      (takeHost poll auditPossible dispatch host).broker.nextId = dispatch.broker.nextId ∧
      ∀ other, (takeHost poll auditPossible dispatch host).broker.queue other =
        if other = host then (dispatch.broker.taken poll host).2
        else dispatch.broker.queue other := by
  unfold takeHost
  cases there : dispatch.broker.queues host with
  | none =>
      have empty : dispatch.broker.queue host = [] := by rw [queue, there]; rfl
      have nothing : dispatch.broker.taken poll host = ([], []) := by
        rw [taken, empty]
        cases room poll host with
        | zero => rw [pick]
        | succ cap => rw [pick]
      refine ⟨by rw [nothing]; exact (List.append_nil _).symm, rfl, rfl, fun other => ?_⟩
      by_cases same : other = host
      · rw [if_pos same, nothing, same]
        exact empty
      · rw [if_neg same]
  | some entries =>
      have held : dispatch.broker.queue host = entries := by rw [queue, there]; rfl
      have cut : pick poll.node (targetInflightPerHost - poll.pending host) entries =
          dispatch.broker.taken poll host := by rw [taken, held, room]
      obtain ⟨out, offers, queues, nextId⟩ := leaseAll_spec poll auditPossible
        (pick poll.node (targetInflightPerHost - poll.pending host) entries).1
        { dispatch with
          broker := dispatch.broker.setQueue host
            (pick poll.node (targetInflightPerHost - poll.pending host) entries).2 }
      refine ⟨?_, offers, nextId, fun other => ?_⟩
      · rw [← cut]
        exact out
      · rw [queue, queues, setQueue_queues]
        by_cases same : other = host
        · rw [same, Function.update_self, if_pos rfl, cut]
          rfl
        · rw [Function.update_of_ne same, if_neg same]
          rfl

/-- Each host is topped up from its queue as it was. -/
theorem takeHosts_spec (poll : Poll) (auditPossible : Bool) {hosts : List String}
    (distinct : hosts.Nodup) (dispatch : Dispatch) :
    (hosts.foldl (takeHost poll auditPossible) dispatch).out = dispatch.out ++
        hosts.flatMap (fun host =>
          (dispatch.broker.taken poll host).1.filterMap dispatch.broker.offer) ∧
      (hosts.foldl (takeHost poll auditPossible) dispatch).broker.nextId =
        dispatch.broker.nextId ∧
      ∀ other, (hosts.foldl (takeHost poll auditPossible) dispatch).broker.queue other =
        if other ∈ hosts then (dispatch.broker.taken poll other).2
        else dispatch.broker.queue other := by
  induction hosts generalizing dispatch with
  | nil => exact ⟨(List.append_nil _).symm, rfl, fun _ => rfl⟩
  | cons host hosts ih =>
      rw [List.nodup_cons] at distinct
      obtain ⟨out, offers, nextId, queues⟩ := takeHost_spec poll auditPossible dispatch host
      obtain ⟨outs, allNextId, allQueues⟩ :=
        ih distinct.2 (takeHost poll auditPossible dispatch host)
      have apart : ∀ other, other ≠ host →
          (takeHost poll auditPossible dispatch host).broker.taken poll other =
            dispatch.broker.taken poll other := by
        intro other different
        rw [taken, queues, if_neg different, taken]
      refine ⟨?_, allNextId.trans nextId, fun other => ?_⟩
      · rw [List.foldl_cons, outs, out, offers, List.flatMap_cons, List.append_assoc]
        congr 2
        apply List.flatMap_congr
        intro other inside
        rw [apart other fun same => distinct.1 (same ▸ inside)]
      · rw [List.foldl_cons, allQueues, queues]
        by_cases same : other = host
        · subst same
          rw [if_neg distinct.1, if_pos rfl, if_pos List.mem_cons_self]
        · rw [apart other same, if_neg same]
          by_cases later : other ∈ hosts
          · rw [if_pos later, if_pos (List.mem_cons_of_mem _ later)]
          · rw [if_neg later, if_neg fun inside => (List.mem_cons.mp inside).elim same later]

/-- Twins wait behind what is queued, and have new ids. -/
theorem createTwins_spec (poll : Poll) (twins : List (Nat × String × String × String)) :
    ∀ broker : Broker, ∀ host, ∃ new, (twins.foldl (createTwin poll) broker).queue host =
      broker.queue host ++ new ∧ ∀ entry ∈ new, broker.nextId ≤ entry.1 := by
  induction twins with
  | nil => exact fun broker host => ⟨[], (List.append_nil _).symm, nofun⟩
  | cons twin twins ih =>
      intro broker host
      obtain ⟨primaryId, own, method, path⟩ := twin
      obtain ⟨later, same, fresh⟩ := ih (createTwin poll broker (primaryId, own, method, path)) host
      have linked : ∀ (broker : Broker) (primaryId twinId : Nat),
          (broker.linkTwin primaryId twinId).queues = broker.queues ∧
            (broker.linkTwin primaryId twinId).nextId = broker.nextId := by
        intro broker primaryId twinId
        unfold linkTwin
        split
        · exact ⟨rfl, rfl⟩
        · exact ⟨rfl, rfl⟩
      have nextId : (createTwin poll broker (primaryId, own, method, path)).nextId =
          broker.nextId + 1 := (linked _ _ _).2
      have first : ∃ new, (createTwin poll broker (primaryId, own, method, path)).queue host =
          broker.queue host ++ new ∧ ∀ entry ∈ new, broker.nextId ≤ entry.1 := by
        by_cases here : host = own
        · subst here
          refine ⟨[(broker.nextId, some poll.node)], ?_, fun entry inside => ?_⟩
          · rw [queue, createTwin]
            dsimp only
            rw [setAudit_queues, pushBack_queues, Function.update_self, (linked _ _ _).1]
            rfl
          · exact Nat.le_of_eq (congrArg Prod.fst (List.mem_singleton.mp inside)).symm
        · refine ⟨[], ?_, nofun⟩
          rw [queue, createTwin]
          dsimp only
          rw [setAudit_queues, pushBack_queues, Function.update_of_ne here, (linked _ _ _).1,
            List.append_nil]
          rfl
      obtain ⟨new, one, above⟩ := first
      refine ⟨new ++ later, ?_, fun entry inside => ?_⟩
      · rw [List.foldl_cons, same, one, List.append_assoc]
      · rcases List.mem_append.mp inside with inside | inside
        · exact above entry inside
        · have beyond := fresh entry inside
          omega

/-- A host's part of what is gathered host by host. -/
theorem filter_flatMap_host {hosts : List String} (distinct : hosts.Nodup)
    (gathered : String → List Job) (own : ∀ host, ∀ job ∈ gathered host, job.host = host)
    (host : String) : (hosts.flatMap gathered).filter (fun job => job.host = host) =
      if host ∈ hosts then gathered host else [] := by
  induction hosts with
  | nil => rfl
  | cons first hosts ih =>
      rw [List.nodup_cons] at distinct
      rw [List.flatMap_cons, List.filter_append, ih distinct.2]
      by_cases same : first = host
      · subst same
        have mine : (gathered first).filter (fun job => job.host = first) = gathered first :=
          List.filter_eq_self.mpr fun job inside => decide_eq_true (own first job inside)
        rw [mine, if_neg distinct.1, if_pos List.mem_cons_self, List.append_nil]
      · have foreign : (gathered first).filter (fun job => job.host = host) = [] := by
          rw [List.filter_eq_nil_iff]
          intro job inside there
          exact same ((own first job inside).symm.trans (of_decide_eq_true there))
        have later : host ∈ first :: hosts ↔ host ∈ hosts :=
          List.mem_cons.trans (or_iff_right (Ne.symm same))
        rw [foreign, List.nil_append]
        exact if_congr later.symm rfl rfl

/-- The ids that are handed out are those of jobs that are there. -/
theorem map_id_offer (broker : Broker) (ids : List Nat) :
    (ids.filterMap broker.offer).map Job.id = ids.filter broker.live := by
  induction ids with
  | nil => rfl
  | cons id ids ih =>
      cases there : broker.jobs id with
      | none =>
          have gone : broker.offer id = none := by rw [offer, there]; rfl
          have dead : ¬ (broker.live id = true) := by rw [live, there]; exact Bool.false_ne_true
          rw [List.filterMap_cons_none gone, List.filter_cons_of_neg dead, ih]
      | some job =>
          have found : broker.offer id = some ⟨id, job.host, job.method, job.path, leaseMs⟩ := by
            rw [offer, there]; rfl
          have alive : broker.live id = true := by rw [live, there]; rfl
          rw [List.filterMap_cons_some found, List.filter_cons_of_pos alive, List.map_cons, ih]

/-- A poll takes the first eligible jobs of a host, as many as there is room for. -/
theorem taken_fst (broker : Broker) (poll : Poll) (host : String) :
    (broker.taken poll host).1 = (broker.eligible poll.node host).take (room poll host) :=
  pick_fst poll.node (room poll host) (broker.queue host)

/-- The jobs that a host hands out are its own. -/
theorem offer_host (homed : Homed broker) (poll : Poll) (host : String) :
    ∀ job ∈ (broker.taken poll host).1.filterMap broker.offer, job.host = host := by
  intro job inside
  obtain ⟨id, picked, offered⟩ := List.mem_filterMap.mp inside
  rw [taken_fst] at picked
  obtain ⟨entry, kept, rfl⟩ := List.mem_map.mp (List.mem_of_mem_take picked)
  obtain ⟨held, found, rfl⟩ := Option.map_eq_some_iff.mp offered
  have waits := List.mem_of_mem_filter kept
  cases there : broker.queues host with
  | none =>
      rw [queue, there] at waits
      cases waits
  | some entries =>
      rw [queue, there] at waits
      exact homed host entries entry held there waits found

/-- What a poll is handed of a host are the live jobs among the entries it cuts off. -/
theorem takeJobs_reply (homed : Homed broker) (poll : Poll) {hosts : List String}
    (order : Enumerates hosts fun host => (broker.queues host).isSome) (host : String) :
    ((broker.takeJobs poll hosts).2.filter fun job => job.host = host).map Job.id =
      ((broker.eligible poll.node host).take (room poll host)).filter broker.live := by
  have reply := (takeHosts_spec poll (broker.registry.activeNodeOtherThan poll.node poll.activeNow)
    order.1 { broker := broker, out := [], newTwins := [] }).1
  rw [takeJobs, reply, List.nil_append, filter_flatMap_host order.1 _ (offer_host homed poll)]
  by_cases known : host ∈ hosts
  · rw [if_pos known, map_id_offer, taken_fst]
  · have empty : broker.queue host = [] := by
      rw [order.2] at known
      rw [queue, Option.not_isSome_iff_eq_none.mp known]
      rfl
    rw [if_neg known, eligible, empty]
    exact congrArg (List.filter broker.live) List.take_nil.symm

/-- A job is excluded from the node as its entries are. -/
theorem filter_mayRun (handled : Handled broker handed) (node : Nat) (host : String) :
    ((broker.queue host).map Prod.fst).filter (broker.mayRun node) =
      (broker.eligible node host).filter broker.unleased := by
  rw [eligible, List.filter_map, List.filter_map, List.filter_filter]
  congr 1
  refine List.filter_congr fun entry inside => ?_
  rw [Function.comp_apply, Function.comp_apply, mayRun, unleased]
  cases live : broker.jobs entry.1 with
  | none => rfl
  | some job =>
      cases there : broker.queues host with
      | none =>
          rw [queue, there] at inside
          cases inside
      | some entries =>
          rw [queue, there] at inside
          rw [handled.entry host entries entry.1 entry.2 job there inside live]
          rfl

/-- The entries of live jobs that are not handed out stay queued in their order. -/
theorem takeJobs_order (handled : Handled broker handed) (homed : Homed broker) (poll : Poll)
    {hosts : List String} (order : Enumerates hosts fun host => (broker.queues host).isSome)
    (host : String) :
    (((broker.takeJobs poll hosts).1.queue host).filter fun entry => entry.1 < broker.nextId &&
        broker.live entry.1 && entry.1 ∉ (broker.takeJobs poll hosts).2.map Job.id) =
      (broker.queue host).filter fun entry =>
        broker.live entry.1 && entry.1 ∉ (broker.takeJobs poll hosts).2.map Job.id := by
  generalize replied : (broker.takeJobs poll hosts).2.map Job.id = reply
  have handedOut : ∀ id ∈ (broker.taken poll host).1, broker.live id = true → id ∈ reply := by
    intro id picked alive
    rw [taken_fst] at picked
    have inside : id ∈ ((broker.eligible poll.node host).take (room poll host)).filter
        broker.live := List.mem_filter.mpr ⟨picked, alive⟩
    rw [← takeJobs_reply homed poll order host] at inside
    obtain ⟨job, member, same⟩ := List.mem_map.mp inside
    rw [← replied]
    exact List.mem_map.mpr ⟨job, List.mem_of_mem_filter member, same⟩
  obtain ⟨-, nextId, queues⟩ := takeHosts_spec poll
    (broker.registry.activeNodeOtherThan poll.node poll.activeNow) order.1
    { broker := broker, out := [], newTwins := [] }
  obtain ⟨new, appended, fresh⟩ := createTwins_spec poll (hosts.foldl (takeHost poll
    (broker.registry.activeNodeOtherThan poll.node poll.activeNow))
    { broker := broker, out := [], newTwins := [] }).newTwins (hosts.foldl (takeHost poll
    (broker.registry.activeNodeOtherThan poll.node poll.activeNow))
    { broker := broker, out := [], newTwins := [] }).broker host
  have noNew : new.filter (fun entry => entry.1 < broker.nextId && broker.live entry.1 &&
      entry.1 ∉ reply) = [] := by
    rw [List.filter_eq_nil_iff]
    intro entry inside stays
    have above := fresh entry inside
    rw [nextId] at above
    rw [Bool.and_eq_true, Bool.and_eq_true] at stays
    exact absurd (of_decide_eq_true stays.1.1) (Nat.not_lt.mpr above)
  have old : ∀ entry ∈ broker.queue host, entry.1 < broker.nextId := by
    intro entry inside
    cases there : broker.queues host with
    | none =>
        rw [queue, there] at inside
        cases inside
    | some entries =>
        rw [queue, there] at inside
        exact handled.bounded host entries entry there inside
  have drop : ∀ entries : List (Nat × Option Nat),
      (∀ entry ∈ entries, entry.1 < broker.nextId) →
      entries.filter (fun entry => entry.1 < broker.nextId && broker.live entry.1 &&
        entry.1 ∉ reply) =
      entries.filter fun entry => broker.live entry.1 && entry.1 ∉ reply := by
    intro entries below
    refine List.filter_congr fun entry inside => ?_
    rw [decide_eq_true (below entry inside), Bool.true_and]
  have kept := queues host
  rw [takeJobs]
  dsimp only
  rw [appended, List.filter_append, noNew, List.append_nil, kept]
  by_cases known : host ∈ hosts
  · rw [if_pos known, drop]
    · refine pick_snd poll.node (fun id => broker.live id && id ∉ reply) (room poll host)
        (broker.queue host) fun id picked => ?_
      cases alive : broker.live id with
      | false => rfl
      | true =>
          rw [Bool.true_and]
          exact decide_eq_false (not_not_intro (handedOut id picked alive))
    · exact fun entry inside => old entry (pick_kept _ _ _ _ inside)
  · rw [if_neg known, drop _ old]

section Results

variable {Value : Type} [DecidableEq Value] (fromStr : String → Option Value)

/-- **Topping up.** In every state of every run a poll is handed what it is to be handed exactly
when, for each host, the part of the queue that is cut off is clean. -/
theorem takeJobs_tops_up_iff {calls : List Call} (run : Run (Step fromStr) new calls broker)
    (poll : Poll) {hosts : List String}
    (order : Enumerates hosts fun host => (broker.queues host).isSome) :
    ToppedUp broker poll (broker.takeJobs poll hosts).1 (broker.takeJobs poll hosts).2 ↔
      ∀ host, Clean broker poll host := by
  obtain ⟨homed, handed, handled⟩ := run_homed fromStr run
  have implied : ∀ id, broker.unleased id = true → broker.live id = true := by
    intro id free
    rw [unleased] at free
    rw [live]
    cases there : broker.jobs id with
    | none =>
        rw [there] at free
        cases free
    | some job => rfl
  have perHost : ∀ host,
      ((broker.takeJobs poll hosts).2.filter fun job => job.host = host).map Job.id =
        (broker.dispatchable poll.node host).take (room poll host) ↔ Clean broker poll host := by
    intro host
    rw [takeJobs_reply homed poll order, dispatchable, filter_mayRun handled,
      take_filter_eq_iff implied]
    exact ⟨fun clean => ⟨clean.1, clean.2.1, clean.2.2⟩,
      fun clean => ⟨clean.unleased, clean.once, clean.live⟩⟩
  constructor
  · exact fun topped host => (perHost host).mp (topped.jobs host)
  · intro clean
    refine ⟨fun host => (perHost host).mpr (clean host),
      takeJobs_order handled homed poll order, fun idle host some => ?_⟩
    have nothing := (perHost host).mpr (clean host)
    rw [idle, List.filter_nil, List.map_nil] at nothing
    exact (List.take_eq_nil_iff.mp nothing.symm).resolve_left (Nat.ne_of_gt some)

end Results

/-- A fetch is queued again after its node lost the lease, and is answered late from there. Another
fetch waits behind its entry. -/
def answeredCalls : List Call :=
  [.fetch "europe" "match-v5.match" "/x" 0,
    .takeJobs ⟨1, fun _ => 0, 5, 5, fun _ => false⟩ ["europe"],
    .sweep 200000 [1] [],
    .complete 1 ⟨1, .ok, some "1", none⟩ 200001,
    .fetch "europe" "match-v5.match" "/y" 200002]

/-- The calls are those of a run. -/
theorem answeredCalls_run : Run (Step (some : String → Option String)) new answeredCalls
    (after some answeredCalls) := by
  have leased : Run (Step (some : String → Option String)) new (answeredCalls.take 2)
      (after some (answeredCalls.take 2)) := by
    refine .cons ⟨trivial, rfl⟩ <| .cons ⟨enumerates_host (by decide) ?_, rfl⟩ (.nil _)
    exact fun other distinct => Function.update_of_ne distinct ..
  have expired := run_after_concat _ (.sweep 200000 [1] []) leased <| by
    have sound := run_sound _ leased
    exact ⟨sound.enumerates (fun id ⟨job, _, _, live, _⟩ => ⟨job, live⟩) (by decide) (by decide)
      (by decide), (releaseAll_sound [1] sound).enumerates (fun id ⟨job, live, _⟩ => ⟨job, live⟩)
        (by decide) (by decide) (by decide)⟩
  have answered := run_after_concat _ (.complete 1 ⟨1, .ok, some "1", none⟩ 200001) expired trivial
  exact run_after_concat _ (.fetch "europe" "match-v5.match" "/y" 200002) answered trivial

/-- The broker has one host. -/
theorem answeredCalls_hosts :
    Enumerates ["europe"] fun host =>
      ((after (some : String → Option String) answeredCalls).queues host).isSome := by
  refine enumerates_host (by decide) fun other distinct => ?_
  exact (Function.update_of_ne distinct ..).trans <| (Function.update_of_ne distinct ..).trans <|
    (Function.update_of_ne distinct ..).trans <| Function.update_of_ne distinct ..

/-- A poll with room for more than one job. -/
theorem takeJobs_tops_up_iff_answered :
    ToppedUp (after (some : String → Option String) answeredCalls)
        ⟨2, fun _ => 0, 200003, 200003, fun _ => false⟩
        ((after some answeredCalls).takeJobs ⟨2, fun _ => 0, 200003, 200003, fun _ => false⟩
          ["europe"]).1
        ((after some answeredCalls).takeJobs ⟨2, fun _ => 0, 200003, 200003, fun _ => false⟩
          ["europe"]).2 ↔
      ∀ host, Clean (after (some : String → Option String) answeredCalls)
        ⟨2, fun _ => 0, 200003, 200003, fun _ => false⟩ host :=
  takeJobs_tops_up_iff some answeredCalls_run ⟨2, fun _ => 0, 200003, 200003, fun _ => false⟩
    answeredCalls_hosts

/-- A poll with room for one job takes the entry of the answered fetch for it, and is handed nothing
while the other fetch waits. -/
theorem poll_starves_behind_answered :
    Run (Step (some : String → Option String)) new answeredCalls (after some answeredCalls) ∧
      (after (some : String → Option String) answeredCalls).dispatchable 2 "europe" = [2] ∧
      ((after (some : String → Option String) answeredCalls).takeJobs
        ⟨2, fun _ => 7, 200003, 200003, fun _ => false⟩ ["europe"]).2 = [] ∧
      ¬ ToppedUp (after (some : String → Option String) answeredCalls)
        ⟨2, fun _ => 7, 200003, 200003, fun _ => false⟩
        ((after some answeredCalls).takeJobs ⟨2, fun _ => 7, 200003, 200003, fun _ => false⟩
          ["europe"]).1
        ((after some answeredCalls).takeJobs ⟨2, fun _ => 7, 200003, 200003, fun _ => false⟩
          ["europe"]).2 := by
  have waiting : (after (some : String → Option String) answeredCalls).dispatchable 2 "europe" =
      [2] := by decide
  refine ⟨answeredCalls_run, waiting, by decide, fun topped => ?_⟩
  have idle := topped.idle (by decide) "europe" (by decide)
  rw [waiting] at idle
  exact List.cons_ne_nil _ _ idle

end LolCrawler.Broker
