import LolCrawler.Broker.TopUp

/-! # What a job asks for

A node is told the host, the method and the path of a job. They stay what they were for as long
as the job lives, and an id that is given once is not given again (`apply_offers`). What a poll
is handed is what its jobs ask for (`takeJobs_offer`).
-/

namespace LolCrawler.Broker

open Foundation

/-- The live jobs ask for what they asked for, or have new ids. -/
structure Offers (next broker : Broker) : Prop where
  nextId : broker.nextId ≤ next.nextId
  old : ∀ id job, next.offer id = some job → broker.offer id = some job ∨ broker.nextId ≤ id

variable {broker next : Broker} {id : Nat} {job : JobState}

namespace Offers

/-- A broker offers what it offers. -/
theorem refl (broker : Broker) : Offers broker broker :=
  ⟨Nat.le_refl _, fun _ _ found => .inl found⟩

/-- Two changes, one after the other, that keep the offers. -/
theorem trans {last : Broker} (second : Offers last next) (first : Offers next broker) :
    Offers last broker where
  nextId := Nat.le_trans first.nextId second.nextId
  old id job found := by
    rcases second.old id job found with before | new
    · exact first.old id job before
    · exact .inr (Nat.le_trans first.nextId new)

/-- No job is new, and none is changed. -/
theorem of_jobs (jobs : ∀ id job, next.jobs id = some job → broker.jobs id = some job)
    (nextId : next.nextId = broker.nextId) : Offers next broker where
  nextId := Nat.le_of_eq nextId.symm
  old id job found := by
    obtain ⟨state, live, told⟩ := Option.map_eq_some_iff.mp found
    left
    rw [offer, jobs id state live, Option.map_some, told]

/-- What is dropped is not offered otherwise. -/
theorem drops (drops : Drops next broker) : Offers next broker := .of_jobs drops.jobs drops.nextId

/-- The same table makes the same offers. -/
theorem same (same : SameTable next broker) : Offers next broker :=
  .of_jobs (fun _ _ live => same.jobs ▸ live) same.nextId

/-- A job that changes in anything else. -/
theorem setJob {old : JobState} (live : broker.jobs id = some old) (host : job.host = old.host)
    (method : job.method = old.method) (path : job.path = old.path) :
    Offers (broker.setJob id job) broker where
  nextId := Nat.le_refl _
  old other told found := by
    left
    rw [offer, setJob_jobs] at found
    by_cases own : other = id
    · rw [own, Function.update_self, Option.map_some, host, method, path] at found
      rw [own, offer, live, Option.map_some]
      exact found
    · rw [Function.update_of_ne own] at found
      exact found

/-- An entry that is queued changes no offer. -/
theorem pushBack (host : String) (entry : Nat × Option Nat) :
    Offers (broker.pushBack host entry) broker :=
  .of_jobs (fun _ _ live => live) rfl

/-- A new job leaves the offers of the others as they are. -/
theorem insert (new : next.jobs = Function.update broker.jobs broker.nextId (some job))
    (nextId : next.nextId = broker.nextId + 1) : Offers next broker where
  nextId := by omega
  old other told found := by
    by_cases own : other = broker.nextId
    · exact .inr (Nat.le_of_eq own.symm)
    · rw [offer, new, Function.update_of_ne own] at found
      exact .inl found

end Offers

/-- A lease that ends changes no offer. -/
theorem release_offers (broker : Broker) (id : Nat) (countAttempt : Bool) :
    Offers (broker.release id countAttempt) broker := by
  unfold release
  cases live : broker.jobs id with
  | none => exact .refl broker
  | some job =>
      have unleased : Offers (broker.setJob id (job.unlease countAttempt)) broker :=
        .setJob live rfl rfl rfl
      dsimp only
      split
      · exact (Offers.drops (drops_abandon _ _ _)).trans unleased
      · exact (Offers.pushBack _ _).trans unleased

/-- The sweeper changes no offer. -/
theorem sweep_offers (broker : Broker) (expired stale : List Nat) :
    Offers (broker.sweep expired stale) broker := by
  have released : Offers (broker.releaseAll expired) broker :=
    List.foldlRecOn expired _ (motive := fun current => Offers current broker) (.refl broker)
      fun current kept id _ => (release_offers current id true).trans kept
  exact (Offers.drops (drops_dropTwins _ stale)).trans released

/-- A twin that is linked changes no offer. -/
theorem linkTwin_offers (broker : Broker) (primaryId twinId : Nat) :
    Offers (broker.linkTwin primaryId twinId) broker := by
  unfold linkTwin
  cases live : broker.jobs primaryId with
  | none => exact .refl broker
  | some job => exact .setJob live rfl rfl rfl

/-- A twin is offered anew. -/
theorem createTwin_offers (poll : Poll) (broker : Broker)
    (twin : Nat × String × String × String) : Offers (createTwin poll broker twin) broker := by
  obtain ⟨primaryId, host, method, path⟩ := twin
  rw [createTwin_eq]
  have inserted : Offers ({ broker with
      nextId := broker.nextId + 1
      primaryOf := Function.update broker.primaryOf broker.nextId (some primaryId) }.setJob
        broker.nextId (newTwin poll primaryId host method path)) broker := .insert rfl rfl
  have queued := (Offers.pushBack host (broker.nextId, some poll.node)).trans
    ((linkTwin_offers _ primaryId broker.nextId).trans inserted)
  exact ⟨queued.nextId, queued.old⟩

/-- A poll changes no offer, and twins are offered anew. -/
theorem takeJobs_offers (broker : Broker) (poll : Poll) (hosts : List String) :
    Offers (broker.takeJobs poll hosts).1 broker := by
  have taken : ∀ (auditPossible : Bool) (hosts : List String) (dispatch : Dispatch),
      (hosts.foldl (takeHost poll auditPossible) dispatch).broker.offer = dispatch.broker.offer ∧
      (hosts.foldl (takeHost poll auditPossible) dispatch).broker.nextId =
        dispatch.broker.nextId := by
    intro auditPossible hosts
    induction hosts with
    | nil => exact fun dispatch => ⟨rfl, rfl⟩
    | cons host hosts ih =>
        intro dispatch
        obtain ⟨-, offers, nextId, -⟩ := takeHost_spec poll auditPossible dispatch host
        obtain ⟨allOffers, allNextId⟩ := ih (takeHost poll auditPossible dispatch host)
        exact ⟨allOffers.trans offers, allNextId.trans nextId⟩
  unfold takeJobs
  refine List.foldlRecOn _ (createTwin poll) (motive := fun current => Offers current broker) ?_
    fun current kept twin _ => (createTwin_offers poll current twin).trans kept
  obtain ⟨offers, nextId⟩ := taken (broker.registry.activeNodeOtherThan poll.node poll.activeNow)
    hosts { broker := broker, out := [], newTwins := [] }
  refine ⟨Nat.le_of_eq nextId.symm, fun id job found => ?_⟩
  rw [offers] at found
  exact .inl found

/-- A poll is handed what its jobs ask for. -/
theorem takeJobs_offer (broker : Broker) (poll : Poll) {hosts : List String}
    (distinct : hosts.Nodup) : ∀ job ∈ (broker.takeJobs poll hosts).2,
      broker.offer job.id = some job := by
  intro job handed
  have reply := (takeHosts_spec poll (broker.registry.activeNodeOtherThan poll.node poll.activeNow)
    distinct { broker := broker, out := [], newTwins := [] }).1
  rw [takeJobs, reply, List.nil_append] at handed
  obtain ⟨host, -, inside⟩ := List.mem_flatMap.mp handed
  obtain ⟨id, -, offered⟩ := List.mem_filterMap.mp inside
  obtain ⟨state, live, rfl⟩ := Option.map_eq_some_iff.mp offered
  exact offered

/-- A fetch changes no offer from before. -/
theorem fetch_offers (broker : Broker) (host method path : String) (now : Nat) :
    Offers (broker.fetch host method path now) broker :=
  .insert rfl rfl

/-- A fetch is offered. -/
theorem fetch_offer (broker : Broker) (host method path : String) (now : Nat) :
    (broker.fetch host method path now).offer broker.nextId =
      some ⟨broker.nextId, host, method, path, leaseMs⟩ := by
  change (Function.update broker.jobs broker.nextId
    (some (newPrimary broker.nextId host method path now)) broker.nextId).map _ = _
  rw [Function.update_self]
  rfl

section Results

variable {Value : Type} [DecidableEq Value] (fromStr : String → Option Value)

/-- An answer changes no offer. -/
theorem complete_offers (broker : Broker) (node : Nat) (result : JobResult) (nowUnixMs : Nat) :
    Offers (complete fromStr broker node result nowUnixMs) broker := by
  have completion := complete_completion fromStr broker node result nowUnixMs
  generalize complete fromStr broker node result nowUnixMs = next at completion ⊢
  cases completion with
  | stale refused => exact .refl broker
  | @delivered job body live accepted filed =>
      have resolved := (drops_send _ job.responder body.response).trans
        (drops_removeJob broker result.id)
      exact (Offers.same (deliver_sameTable fromStr broker node result job body nowUnixMs)).trans
        (.drops resolved)
  | keyRejected live accepted outcome =>
      have marked : Offers (broker.markKeyBad node) broker := .drops { Drops.rfl broker with }
      exact (release_offers _ _ _).trans marked
  | exhausted live accepted outcome reached =>
      exact (Offers.drops (drops_abandon _ _ _)).trans (.setJob live rfl rfl rfl)
  | requeued live accepted outcome within =>
      exact (release_offers _ _ _).trans (.setJob live rfl rfl rfl)

/-- No call changes what a live job asks for. -/
theorem apply_offers (broker : Broker) (call : Call) :
    Offers (broker.apply fromStr call) broker := by
  cases call with
  | fetch host method path now => exact fetch_offers broker host method path now
  | takeJobs poll hosts => exact takeJobs_offers broker poll hosts
  | complete node result nowUnixMs => exact complete_offers fromStr broker node result nowUnixMs
  | sweep now expired stale => exact sweep_offers broker expired stale
  | enrollRuntime id name => exact .drops { Drops.rfl broker with }
  | touch id now => exact .drops { Drops.rfl broker with }

end Results

end LolCrawler.Broker
