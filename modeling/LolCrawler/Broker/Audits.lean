import LolCrawler.Broker.Fetches

/-! # Audit verdicts

A fraction of the dispatched jobs is cloned to a second node and the two bodies
are compared. The pair remembers the node the primary was first leased to, not
the node that answers it: after an expiry the primary may be answered by another
node, even by the twin's. `Broker.Displaced` names the answers that go wrong;
without them every recorded verdict names the two uploaders and they differ
(`Broker.verdicts_sound_of_not_displaced`).
-/

namespace LolCrawler.Broker

open Foundation

/-- The verdict names the uploader of the primary body and the uploader of the
twin body, and these are two nodes. -/
def VerdictSound (broker : Broker) (event : VerdictEvent) : Prop :=
  ∃ primaryId primaryUploader twinUploader, broker.primaryOf event.twinId = some primaryId ∧
    broker.uploads primaryId = some (primaryUploader, event.primary) ∧
    broker.uploads event.twinId = some (twinUploader, event.twin) ∧
    primaryUploader ≠ twinUploader ∧
    event.primaryNode = primaryUploader ∧ event.twinNode = twinUploader

/-- An accepted answer to an audited primary from another node than the one it was
first leased to, or to a waiting twin from the node it is kept off. -/
def Displaced (broker : Broker) : Call → Prop
  | .complete node result _ => ∃ job ∈ broker.jobs result.id,
      job.accepts node = true ∧ result.auditBody ≠ none ∧
      ((job.isTwin = false ∧ ∃ twinId ∈ job.twinId, ∃ pair ∈ broker.audits twinId,
          node ≠ pair.primaryNode) ∨
        (job.isTwin = true ∧ job.lease = none ∧ job.excludeNode = some node ∧
          broker.audits result.id ≠ none))
  | _ => False

instance (broker : Broker) : (call : Call) → Decidable (broker.Displaced call)
  | .complete .. => Option.decidableExistsMem _
  | .fetch .. | .takeJobs .. | .sweep .. | .enrollRuntime .. | .touch .. => .isFalse id

/-- What an open pair holds so far was uploaded by the nodes it names. -/
structure PairSound (broker : Broker) (twinId : Nat) (pair : AuditPair) : Prop where
  primary : ∀ body, pair.primary = some body → ∃ primaryId,
    broker.primaryOf twinId = some primaryId ∧
      broker.uploads primaryId = some (pair.primaryNode, body)
  twin : ∀ body, pair.twin = some body → ∃ node, pair.twinNode = some node ∧
    broker.uploads twinId = some (node, body) ∧ node ≠ pair.primaryNode

/-- The audit bookkeeping: queue entries carry the exclusion of their job, no job
is leased to the node it is kept off, and open pairs and verdicts name their
uploaders. -/
structure Audited (broker : Broker) : Prop where
  entry : ∀ host queue id exclude job, broker.queues host = some queue → (id, exclude) ∈ queue →
    broker.jobs id = some job → exclude = job.excludeNode
  bounded : ∀ host queue entry, broker.queues host = some queue → entry ∈ queue →
    entry.1 < broker.nextId
  held : ∀ id job node expiry, broker.jobs id = some job → job.lease = some (node, expiry) →
    job.excludeNode ≠ some node
  linked : ∀ id job twinId, broker.jobs id = some job → job.isTwin = false →
    job.twinId = some twinId → broker.primaryOf twinId = some id
  kept : ∀ id job pair, broker.jobs id = some job → job.isTwin = true →
    broker.audits id = some pair → job.excludeNode = some pair.primaryNode
  unanswered : ∀ id job, broker.jobs id = some job → broker.uploads id = none
  unused : ∀ id, broker.nextId ≤ id → broker.uploads id = none ∧ broker.primaryOf id = none ∧
    broker.audits id = none
  pairs : ∀ twinId pair, broker.audits twinId = some pair → PairSound broker twinId pair
  verdicts : ∀ event ∈ broker.verdicts, VerdictSound broker event

/-- A new broker is audited. -/
theorem audited_new : Audited new where
  entry := fun _ _ _ _ _ there => nomatch there
  bounded := fun _ _ _ there => nomatch there
  held := fun _ _ _ _ live => nomatch live
  linked := fun _ _ _ live => nomatch live
  kept := fun _ _ _ live => nomatch live
  unanswered := fun _ _ live => nomatch live
  unused := fun _ _ => ⟨rfl, rfl, rfl⟩
  pairs := fun _ _ there => nomatch there
  verdicts := fun _ member => nomatch member

variable {broker next : Broker} {id : Nat} {job : JobState}

/-- More uploads and more twins leave a verdict sound. -/
theorem VerdictSound.mono {event : VerdictEvent} (sound : VerdictSound broker event)
    (uploads : ∀ id upload, broker.uploads id = some upload → next.uploads id = some upload)
    (primaryOf : ∀ id primary, broker.primaryOf id = some primary →
      next.primaryOf id = some primary) : VerdictSound next event := by
  obtain ⟨primaryId, first, second, named, primary, twin, rest⟩ := sound
  exact ⟨primaryId, first, second, primaryOf _ _ named, uploads _ _ primary, uploads _ _ twin, rest⟩

/-- A pair stays sound while uploads and links stay. -/
theorem PairSound.mono {twinId : Nat} {pair : AuditPair} (sound : PairSound broker twinId pair)
    (uploads : ∀ id upload, broker.uploads id = some upload → next.uploads id = some upload)
    (primaryOf : ∀ id primary, broker.primaryOf id = some primary →
      next.primaryOf id = some primary) : PairSound next twinId pair where
  primary := fun body there => by
    obtain ⟨primaryId, named, upload⟩ := sound.primary body there
    exact ⟨primaryId, primaryOf _ _ named, uploads _ _ upload⟩
  twin := fun body there => by
    obtain ⟨node, named, upload, distinct⟩ := sound.twin body there
    exact ⟨node, named, uploads _ _ upload, distinct⟩

/-- Calls that only drop, lease, release or queue existing jobs. -/
theorem Audited.shuffle (audited : Audited broker)
    (jobs : ∀ id job, next.jobs id = some job → ∃ old, broker.jobs id = some old ∧
      job.excludeNode = old.excludeNode ∧ job.isTwin = old.isTwin ∧
      ∀ twinId, job.twinId = some twinId →
        old.twinId = some twinId ∨ broker.primaryOf twinId = some id)
    (held : ∀ id job node expiry, next.jobs id = some job → job.lease = some (node, expiry) →
      job.excludeNode ≠ some node)
    (queues : ∀ host queue entry, next.queues host = some queue → entry ∈ queue →
      (∃ other entries, broker.queues other = some entries ∧ entry ∈ entries) ∨
        entry.1 < broker.nextId ∧
          ∀ job, next.jobs entry.1 = some job → entry.2 = job.excludeNode)
    (audits : ∀ twinId pair, next.audits twinId = some pair → broker.audits twinId = some pair)
    (nextId : next.nextId = broker.nextId) (uploads : next.uploads = broker.uploads)
    (primaryOf : next.primaryOf = broker.primaryOf) (verdicts : next.verdicts = broker.verdicts) :
    Audited next where
  entry := by
    intro host queue id exclude job there member live
    rcases queues host queue (id, exclude) there member with ⟨other, entries, before, inside⟩ | own
    · obtain ⟨old, found, exclusion, _⟩ := jobs id job live
      exact (audited.entry _ _ _ _ _ before inside found).trans exclusion.symm
    · exact own.2 job live
  bounded := by
    intro host queue entry there member
    rw [nextId]
    rcases queues host queue entry there member with ⟨other, entries, before, inside⟩ | own
    · exact audited.bounded _ _ _ before inside
    · exact own.1
  held := held
  linked := by
    intro id job twinId live primary named
    obtain ⟨old, found, _, isTwin, twin⟩ := jobs id job live
    rw [primaryOf]
    exact (twin twinId named).elim (audited.linked id old twinId found (isTwin ▸ primary))
      fun cloned => cloned
  kept := by
    intro id job pair live isTwin there
    obtain ⟨old, found, exclusion, same, _⟩ := jobs id job live
    rw [exclusion]
    exact audited.kept id old pair found (same ▸ isTwin) (audits _ _ there)
  unanswered := by
    intro id job live
    obtain ⟨old, found, _⟩ := jobs id job live
    rw [uploads]
    exact audited.unanswered id old found
  unused := by
    intro id above
    rw [nextId] at above
    obtain ⟨upload, primary, open_⟩ := audited.unused id above
    refine ⟨uploads ▸ upload, primaryOf ▸ primary, ?_⟩
    cases there : next.audits id with
    | none => rfl
    | some pair => exact nomatch open_.symm.trans (audits _ _ there)
  pairs := by
    intro twinId pair there
    refine (audited.pairs twinId pair (audits _ _ there)).mono ?_ ?_
    · exact fun _ _ upload => uploads ▸ upload
    · exact fun _ _ named => primaryOf ▸ named
  verdicts := by
    intro event member
    rw [verdicts] at member
    refine (audited.verdicts event member).mono ?_ ?_
    · exact fun _ _ upload => uploads ▸ upload
    · exact fun _ _ named => primaryOf ▸ named

/-- What is dropped leaves the audits. -/
theorem Audited.drops (audited : Audited broker) (drops : Drops next broker) : Audited next := by
  refine audited.shuffle ?_ ?_ ?_ drops.audits drops.nextId drops.uploads drops.primaryOf
    drops.verdicts
  · exact fun id job live => ⟨job, drops.jobs id job live, rfl, rfl, fun _ => .inl⟩
  · exact fun id job node expiry live lease =>
      audited.held id job node expiry (drops.jobs id job live) lease
  · exact fun host queue entry there member => .inl ⟨host, queue, drops.queues ▸ there, member⟩

/-- A job after one was rewritten. -/
theorem setJob_found {other : Nat} {found : JobState}
    (there : (broker.setJob id job).jobs other = some found) :
    other = id ∧ found = job ∨ other ≠ id ∧ broker.jobs other = some found := by
  by_cases same : other = id
  · rw [same, setJob_jobs, Function.update_self, Option.some.injEq] at there
    exact .inl ⟨same, there.symm⟩
  · rw [setJob_jobs, Function.update_of_ne same] at there
    exact .inr ⟨same, there⟩

/-- Rewriting a live job's lease or attempts. -/
theorem Audited.setJob {old : JobState} (audited : Audited broker)
    (live : broker.jobs id = some old) (exclusion : job.excludeNode = old.excludeNode)
    (isTwin : job.isTwin = old.isTwin)
    (twinId : ∀ twinId, job.twinId = some twinId →
      old.twinId = some twinId ∨ broker.primaryOf twinId = some id)
    (held : ∀ node expiry, job.lease = some (node, expiry) → job.excludeNode ≠ some node) :
    Audited (broker.setJob id job) := by
  refine audited.shuffle ?_ ?_
    (fun host queue entry there member => .inl ⟨host, queue, there, member⟩)
    (fun _ _ there => there) rfl rfl rfl rfl
  · intro other found there
    rcases setJob_found there with ⟨rfl, rfl⟩ | ⟨_, there⟩
    · exact ⟨old, live, exclusion, isTwin, twinId⟩
    · exact ⟨found, there, rfl, rfl, fun _ => .inl⟩
  · intro other found node expiry there lease
    rcases setJob_found there with ⟨rfl, rfl⟩ | ⟨_, there⟩
    · exact held node expiry lease
    · exact audited.held _ _ _ _ there lease

/-- Queueing a live job under its own exclusion. -/
theorem Audited.pushBack (audited : Audited broker) (live : broker.jobs id = some job)
    (below : id < broker.nextId) (host : String) :
    Audited (broker.pushBack host (id, job.excludeNode)) := by
  refine audited.shuffle
    (fun _ found there => ⟨found, there, rfl, rfl, fun _ => .inl⟩) audited.held ?_
    (fun _ _ there => there) rfl rfl rfl rfl
  intro other queue entry there member
  rw [pushBack_queues] at there
  have own : entry = (id, job.excludeNode) → entry.1 < broker.nextId ∧
      ∀ current, broker.jobs entry.1 = some current → entry.2 = current.excludeNode := by
    rintro rfl
    refine ⟨below, fun current found => ?_⟩
    rw [live, Option.some.injEq] at found
    exact found ▸ rfl
  by_cases same : other = host
  · subst same
    rw [Function.update_self, Option.some.injEq] at there
    subst there
    rcases List.mem_append.mp member with member | member
    · cases before : broker.queues other with
      | none =>
          rw [before] at member
          cases member
      | some entries =>
          rw [before] at member
          exact .inl ⟨other, entries, before, member⟩
    · exact .inr (own (List.mem_singleton.mp member))
  · rw [Function.update_of_ne same] at there
    exact .inl ⟨other, queue, there, member⟩

/-- A lease that ends leaves the audits. -/
theorem release_audited (sound : Sound broker []) (audited : Audited broker)
    (countAttempt : Bool) : Audited (broker.release id countAttempt) := by
  unfold release
  cases live : broker.jobs id with
  | none => exact audited
  | some job =>
      have unleased : Audited (broker.setJob id (job.unlease countAttempt)) :=
        audited.setJob live rfl rfl (fun _ => .inl) fun _ _ lease => nomatch lease
      simp only
      split
      · exact unleased.drops (drops_abandon _ _ _)
      · have there : (broker.setJob id (job.unlease countAttempt)).jobs id =
            some (job.unlease countAttempt) := Function.update_self ..
        exact unleased.pushBack there (sound.fresh _ _ live) job.host

/-! ## Dispatch -/

/-- The node is not excluded from any live job in the list. -/
def Allowed (broker : Broker) (node : Nat) (ids : List Nat) : Prop :=
  ∀ id ∈ ids, ∀ job, broker.jobs id = some job → job.excludeNode ≠ some node

/-- Only entries that do not exclude the node are picked. -/
theorem pick_allowed (node : Nat) : ∀ (cap : Nat) (queue : List (Nat × Option Nat)),
    ∀ id ∈ (pick node cap queue).1, ∃ exclude, (id, exclude) ∈ queue ∧ exclude ≠ some node
  | 0, _, _, member => by
      simp only [pick, List.not_mem_nil] at member
  | _ + 1, [], _, member => by
      simp only [pick, List.not_mem_nil] at member
  | cap + 1, head :: queue, id, member => by
      unfold pick at member
      by_cases excluded : head.2 = some node
      · simp only [excluded, ↓reduceIte] at member
        obtain ⟨exclude, inside, allowed⟩ := pick_allowed node (cap + 1) queue id member
        exact ⟨exclude, List.mem_cons_of_mem _ inside, allowed⟩
      · simp only [excluded, ↓reduceIte] at member
        rcases List.mem_cons.mp member with rfl | member
        · exact ⟨head.2, List.mem_cons_self, excluded⟩
        · obtain ⟨exclude, inside, allowed⟩ := pick_allowed node cap queue id member
          exact ⟨exclude, List.mem_cons_of_mem _ inside, allowed⟩

/-- Kept entries were in the queue. -/
theorem pick_kept (node : Nat) : ∀ (cap : Nat) (queue : List (Nat × Option Nat)),
    ∀ entry ∈ (pick node cap queue).2, entry ∈ queue
  | 0, _, _, member => by simpa only [pick] using member
  | _ + 1, [], _, member => by simpa only [pick] using member
  | cap + 1, head :: queue, entry, member => by
      unfold pick at member
      by_cases excluded : head.2 = some node
      · simp only [excluded, ↓reduceIte] at member
        rcases List.mem_cons.mp member with rfl | member
        · exact List.mem_cons_self
        · exact List.mem_cons_of_mem _ (pick_kept node (cap + 1) queue entry member)
      · simp only [excluded, ↓reduceIte] at member
        exact List.mem_cons_of_mem _ (pick_kept node cap queue entry member)

/-- The jobs that were picked are leased one by one, to a node that may run them. -/
theorem leaseAll_audited (poll : Poll) (auditPossible : Bool) (picked : List Nat) :
    ∀ dispatch : Dispatch, Audited dispatch.broker → Allowed dispatch.broker poll.node picked →
      Audited (picked.foldl (leaseJob poll auditPossible) dispatch).broker := by
  induction picked with
  | nil => exact fun _ audited _ => audited
  | cons id picked ih =>
      intro dispatch audited allowed
      cases live : dispatch.broker.jobs id with
      | none =>
          have skipped : leaseJob poll auditPossible dispatch id = dispatch := by
            simp only [leaseJob, live]
          rw [List.foldl_cons, skipped]
          exact ih dispatch audited fun other member =>
            allowed other (List.mem_cons_of_mem _ member)
      | some job =>
          have leased : (leaseJob poll auditPossible dispatch id).broker =
              dispatch.broker.setJob id
                { job with lease := some (poll.node, poll.now + leaseMs) } := by
            simp only [leaseJob, live]
          refine ih _ ?_ ?_
          · rw [leased]
            refine audited.setJob live rfl rfl (fun _ => .inl) fun node expiry lease => ?_
            cases lease
            exact allowed id List.mem_cons_self job live
          · intro other member current found
            rw [leased] at found
            by_cases same : other = id
            · rw [same, setJob_jobs, Function.update_self, Option.some.injEq] at found
              subst found
              exact allowed id List.mem_cons_self job live
            · rw [setJob_jobs, Function.update_of_ne same] at found
              exact allowed other (List.mem_cons_of_mem _ member) current found

/-- What is left in the queues after a pick was there before. -/
theorem setQueue_entries {queue rest : List (Nat × Option Nat)} {host : String}
    (there : broker.queues host = some queue) (kept : ∀ entry ∈ rest, entry ∈ queue)
    {other : String} {entries : List (Nat × Option Nat)} {entry : Nat × Option Nat}
    (found : (broker.setQueue host rest).queues other = some entries) (member : entry ∈ entries) :
    ∃ host queue, broker.queues host = some queue ∧ entry ∈ queue := by
  rw [setQueue_queues] at found
  by_cases same : other = host
  · rw [same, Function.update_self, Option.some.injEq] at found
    subst found
    exact ⟨host, queue, there, kept entry member⟩
  · rw [Function.update_of_ne same] at found
    exact ⟨other, entries, found, member⟩

/-- The jobs of a host are handed out to a node that may run them. -/
theorem takeHost_audited (poll : Poll) (auditPossible : Bool) (dispatch : Dispatch)
    (host : String) (audited : Audited dispatch.broker) :
    Audited (takeHost poll auditPossible dispatch host).broker := by
  unfold takeHost
  cases there : dispatch.broker.queues host with
  | none => exact audited
  | some queue =>
      refine leaseAll_audited poll auditPossible _ _ ?_ ?_
      · refine audited.shuffle
          (fun _ found live => ⟨found, live, rfl, rfl, fun _ => .inl⟩) audited.held ?_
          (fun _ _ open_ => open_) rfl rfl rfl rfl
        intro other entries entry found member
        exact .inl (setQueue_entries there (pick_kept _ _ _) found member)
      · intro id member job live
        obtain ⟨exclude, inside, allowed⟩ := pick_allowed _ _ _ id member
        exact audited.entry _ _ _ _ _ there inside live ▸ allowed

/-- A fresh job, with the primary of a fresh twin recorded. -/
theorem Audited.insert (audited : Audited broker)
    (jobs : next.jobs = Function.update broker.jobs broker.nextId (some job))
    (queues : next.queues = broker.queues) (audits : next.audits = broker.audits)
    (nextId : next.nextId = broker.nextId + 1) (uploads : next.uploads = broker.uploads)
    (primaryOf : ∀ twinId, twinId ≠ broker.nextId →
      next.primaryOf twinId = broker.primaryOf twinId)
    (verdicts : next.verdicts = broker.verdicts) (lease : job.lease = none)
    (unlinked : job.isTwin = false → job.twinId = none) : Audited next := by
  have current : ∀ {id found}, next.jobs id = some found →
      id = broker.nextId ∧ found = job ∨ id ≠ broker.nextId ∧ broker.jobs id = some found := by
    intro id found there
    by_cases same : id = broker.nextId
    · rw [jobs, same, Function.update_self, Option.some.injEq] at there
      exact .inl ⟨same, there.symm⟩
    · rw [jobs, Function.update_of_ne same] at there
      exact .inr ⟨same, there⟩
  have grown : ∀ twinId primary, broker.primaryOf twinId = some primary →
      next.primaryOf twinId = some primary := by
    intro twinId primary named
    have old : twinId ≠ broker.nextId := by
      rintro rfl
      exact nomatch named.symm.trans (audited.unused _ (Nat.le_refl _)).2.1
    rw [primaryOf twinId old, named]
  have stable : ∀ id upload, broker.uploads id = some upload → next.uploads id = some upload :=
    fun _ _ there => uploads ▸ there
  constructor
  · intro host queue id exclude found there member live
    rw [queues] at there
    rcases current live with ⟨rfl, _⟩ | ⟨_, live⟩
    · exact (Nat.lt_irrefl _ (audited.bounded _ _ _ there member)).elim
    · exact audited.entry _ _ _ _ _ there member live
  · intro host queue entry there member
    rw [nextId]
    exact Nat.lt_succ_of_lt (audited.bounded _ _ _ (queues ▸ there) member)
  · intro id found node expiry live leased
    rcases current live with ⟨_, rfl⟩ | ⟨_, live⟩
    · exact nomatch lease.symm.trans leased
    · exact audited.held _ _ _ _ live leased
  · intro id found twinId live primary named
    rcases current live with ⟨_, rfl⟩ | ⟨_, live⟩
    · exact nomatch (unlinked primary).symm.trans named
    · exact grown _ _ (audited.linked _ _ _ live primary named)
  · intro id found pair live isTwin there
    rw [audits] at there
    rcases current live with ⟨rfl, _⟩ | ⟨_, live⟩
    · exact nomatch there.symm.trans (audited.unused _ (Nat.le_refl _)).2.2
    · exact audited.kept _ _ _ live isTwin there
  · intro id found live
    rw [uploads]
    rcases current live with ⟨rfl, _⟩ | ⟨_, live⟩
    · exact (audited.unused _ (Nat.le_refl _)).1
    · exact audited.unanswered _ _ live
  · intro id above
    rw [nextId] at above
    obtain ⟨upload, primary, closed⟩ := audited.unused id (Nat.le_of_succ_le above)
    exact ⟨uploads ▸ upload, (primaryOf id (Nat.ne_of_gt above)).trans primary, audits ▸ closed⟩
  · intro twinId pair there
    exact (audited.pairs twinId pair (audits ▸ there)).mono stable grown
  · intro event member
    exact (audited.verdicts event (verdicts ▸ member)).mono stable grown

/-- Opening or updating a pair that names its uploaders. -/
theorem Audited.setAudit {twinId : Nat} {pair : AuditPair} (audited : Audited broker)
    (sound : PairSound broker twinId pair) (below : twinId < broker.nextId)
    (kept : ∀ job, broker.jobs twinId = some job → job.isTwin = true →
      job.excludeNode = some pair.primaryNode) : Audited (broker.setAudit twinId pair) := by
  refine { audited with kept := ?_, unused := ?_, pairs := ?_ }
  · intro id job current live isTwin there
    rw [setAudit_audits] at there
    by_cases same : id = twinId
    · subst same
      rw [Function.update_self, Option.some.injEq] at there
      exact there ▸ kept job live isTwin
    · rw [Function.update_of_ne same] at there
      exact audited.kept id job current live isTwin there
  · intro id above
    obtain ⟨upload, primary, closed⟩ := audited.unused id above
    refine ⟨upload, primary, ?_⟩
    rw [setAudit_audits, Function.update_of_ne (Nat.ne_of_gt (Nat.lt_of_lt_of_le below above))]
    exact closed
  · intro id current there
    rw [setAudit_audits] at there
    by_cases same : id = twinId
    · subst same
      rw [Function.update_self, Option.some.injEq] at there
      subst there
      exact ⟨sound.primary, sound.twin⟩
    · rw [Function.update_of_ne same] at there
      exact ⟨(audited.pairs id current there).primary, (audited.pairs id current there).twin⟩

/-- Pointing a primary at a twin cloned from it. -/
theorem linkTwin_audited {primaryId twinId : Nat} (audited : Audited broker)
    (named : broker.primaryOf twinId = some primaryId) :
    Audited (broker.linkTwin primaryId twinId) := by
  unfold linkTwin
  cases live : broker.jobs primaryId with
  | none => exact audited
  | some job =>
      refine audited.setJob live rfl rfl (fun other same => ?_)
        fun node expiry lease => audited.held primaryId job node expiry live lease
      cases same
      exact .inr named

/-- The same state as `createTwin` reaches, with the primary recorded first. -/
theorem createTwin_eq (poll : Poll) (broker : Broker) (primaryId : Nat)
    (host method path : String) :
    createTwin poll broker (primaryId, host, method, path) =
      ((({ broker with
            nextId := broker.nextId + 1
            primaryOf := Function.update broker.primaryOf broker.nextId (some primaryId) }.setJob
          broker.nextId (newTwin poll primaryId host method path)).linkTwin primaryId
            broker.nextId).pushBack host (broker.nextId, some poll.node)).setAudit broker.nextId
        { method := method, path := path, primaryNode := poll.node, twinNode := none,
          primary := none, twin := none } := by
  unfold createTwin linkTwin
  simp only [setJob_jobs]
  cases Function.update broker.jobs broker.nextId
    (some (newTwin poll primaryId host method path)) primaryId <;> rfl

/-- A twin excludes the node that holds its primary. -/
theorem createTwin_audited (poll : Poll) (twin : Nat × String × String × String)
    (audited : Audited broker) : Audited (createTwin poll broker twin) := by
  obtain ⟨primaryId, host, method, path⟩ := twin
  rw [createTwin_eq]
  generalize opened : { broker with
    nextId := broker.nextId + 1
    primaryOf := Function.update broker.primaryOf broker.nextId (some primaryId) }.setJob
      broker.nextId (newTwin poll primaryId host method path) = inserted
  have fresh : Audited inserted := by
    subst opened
    exact audited.insert rfl rfl rfl rfl rfl (fun _ old => Function.update_of_ne old ..) rfl rfl
      fun primary => nomatch primary
  have there : inserted.jobs broker.nextId = some (newTwin poll primaryId host method path) :=
    opened ▸ Function.update_self ..
  have named : inserted.primaryOf broker.nextId = some primaryId :=
    opened ▸ Function.update_self ..
  have nextId : (inserted.linkTwin primaryId broker.nextId).nextId = broker.nextId + 1 := by
    unfold linkTwin
    subst opened
    split <;> rfl
  obtain ⟨linked, live, same⟩ := linkTwin_live broker.nextId primaryId there
  have exclusion : linked.excludeNode = some poll.node := congrArg JobState.excludeNode same
  have below : broker.nextId < (inserted.linkTwin primaryId broker.nextId).nextId :=
    nextId ▸ Nat.lt_succ_self _
  have queued := (linkTwin_audited fresh named).pushBack live below host
  rw [exclusion] at queued
  refine queued.setAudit ⟨fun _ body => (nomatch body), fun _ body => (nomatch body)⟩ below ?_
  intro job found _
  rw [show (inserted.linkTwin primaryId broker.nextId).jobs broker.nextId = some job from found,
    Option.some.injEq] at live
  exact live ▸ exclusion

/-- A poll leaves the broker audited. -/
theorem takeJobs_audited (poll : Poll) (hosts : List String) (audited : Audited broker) :
    Audited (broker.takeJobs poll hosts).1 := by
  unfold takeJobs
  refine List.foldlRecOn _ (createTwin poll) (motive := fun current => Audited current) ?_
    fun _ invariant twin _ => createTwin_audited poll twin invariant
  exact List.foldlRecOn hosts _ (motive := fun dispatch => Audited dispatch.broker)
    (b := { broker := broker, out := [], newTwins := [] }) audited
    fun dispatch invariant host _ => takeHost_audited poll _ dispatch host invariant

/-- A fetch leaves the broker audited. -/
theorem fetch_audited (audited : Audited broker) (host method path : String) (now : Nat) :
    Audited (broker.fetch host method path now) := by
  have fresh : Audited ({ broker with
      nextId := broker.nextId + 1, fetches := broker.nextId :: broker.fetches }.setJob
        broker.nextId (newPrimary broker.nextId host method path now)) :=
    audited.insert rfl rfl rfl rfl rfl (fun _ _ => rfl) rfl rfl fun _ => rfl
  exact fresh.pushBack (Function.update_self ..) (Nat.lt_succ_self _) host

/-! ## Results -/

section Results

variable {Value : Type} [DecidableEq Value] (fromStr : String → Option Value)

/-- The verdict of a ready pair names its uploaders. -/
theorem finishAuditIfReady_audited (twinId : Nat) (audited : Audited broker) :
    Audited (finishAuditIfReady fromStr broker twinId) := by
  unfold finishAuditIfReady
  cases there : broker.audits twinId with
  | none => exact audited
  | some pair =>
      have sound := audited.pairs twinId pair there
      cases primary : pair.primary with
      | none => simpa only [primary] using audited
      | some a =>
          cases twin : pair.twin with
          | none => simpa only [primary, twin] using audited
          | some b =>
              simp only [primary, twin]
              obtain ⟨primaryId, named, upload⟩ := sound.primary a primary
              obtain ⟨node, twinNode, answer, distinct⟩ := sound.twin b twin
              have dropped := audited.drops (drops_removeAudit broker twinId)
              refine { dropped with
                pairs := fun other open_ found => ⟨(dropped.pairs other open_ found).primary,
                  (dropped.pairs other open_ found).twin⟩
                verdicts := fun event member => ?_ }
              rcases List.mem_append.mp member with member | member
              · exact audited.verdicts event member
              · cases List.mem_singleton.mp member
                exact ⟨primaryId, pair.primaryNode, node, named, upload, answer, distinct.symm, rfl,
                  by rw [twinNode, Option.getD_some]⟩

/-- Recording the accepted upload of a job that has left the table. -/
theorem credit_audited (node : Nat) (result : JobResult) (body : AuditBody) (nowUnixMs : Nat)
    (audited : Audited broker) (gone : broker.jobs result.id = none)
    (silent : broker.uploads result.id = none) (below : result.id < broker.nextId) :
    Audited (broker.credit node result job body nowUnixMs) := by
  have grown : ∀ id upload, broker.uploads id = some upload →
      (broker.credit node result job body nowUnixMs).uploads id = some upload := by
    intro id upload there
    have other : id ≠ result.id := by
      rintro rfl
      exact nomatch silent.symm.trans there
    exact (Function.update_of_ne other ..).trans there
  refine { audited with unanswered := ?_, unused := ?_, pairs := ?_, verdicts := ?_ }
  · intro id current live
    have other : id ≠ result.id := by
      rintro rfl
      exact nomatch gone.symm.trans live
    exact (Function.update_of_ne other ..).trans (audited.unanswered id current live)
  · intro id above
    obtain ⟨upload, rest⟩ := audited.unused id above
    have other : id ≠ result.id := Nat.ne_of_gt (Nat.lt_of_lt_of_le below above)
    exact ⟨(Function.update_of_ne other ..).trans upload, rest⟩
  · exact fun twinId pair there => (audited.pairs twinId pair there).mono grown fun _ _ => id
  · exact fun event member => (audited.verdicts event member).mono grown fun _ _ => id

/-- Filing a body in an open pair, when the pair names its uploader. -/
theorem setPairBody_audited {twinId : Nat} {change : AuditPair → AuditPair}
    (audited : Audited broker) (primaryNode : ∀ pair, (change pair).primaryNode = pair.primaryNode)
    (sound : ∀ pair, broker.audits twinId = some pair → PairSound broker twinId (change pair)) :
    Audited (finishAuditIfReady fromStr (broker.setPairBody twinId change) twinId) := by
  refine finishAuditIfReady_audited fromStr twinId ?_
  unfold setPairBody
  cases there : broker.audits twinId with
  | none => exact audited
  | some pair =>
      refine audited.setAudit (sound pair there) (Nat.lt_of_not_le fun above => ?_) ?_
      · exact nomatch there.symm.trans (audited.unused twinId above).2.2
      · intro job live isTwin
        rw [primaryNode]
        exact audited.kept twinId job pair live isTwin there

/-- The node answering a twin is not the one its pair was opened for. -/
theorem twin_uploader_ne {node nowUnixMs : Nat} {result : JobResult} {pair : AuditPair}
    (audited : Audited broker) (placed : ¬ broker.Displaced (.complete node result nowUnixMs))
    (live : broker.jobs result.id = some job) (accepted : job.accepts node = true)
    (filed : result.auditBody ≠ none) (isTwin : job.isTwin = true)
    (there : broker.audits result.id = some pair) : node ≠ pair.primaryNode := by
  rintro rfl
  have excluded := audited.kept result.id job pair live isTwin there
  cases lease : job.lease with
  | none =>
      refine placed ⟨job, live, accepted, filed, .inr ⟨isTwin, lease, excluded, ?_⟩⟩
      exact fun closed => nomatch there.symm.trans closed
  | some holder =>
      obtain ⟨node, expiry⟩ := holder
      simp only [JobState.accepts, lease, decide_eq_true_eq] at accepted
      exact audited.held result.id job node expiry live lease (accepted ▸ excluded)

/-- An answer that is accepted leaves the broker audited, unless the primary is displaced. -/
theorem deliver_audited (node : Nat) (result : JobResult) (body : AuditBody) (nowUnixMs : Nat)
    (sound : Sound broker []) (audited : Audited broker)
    (placed : ¬ broker.Displaced (.complete node result nowUnixMs))
    (live : broker.jobs result.id = some job) (accepted : job.accepts node = true)
    (filed : result.auditBody = some body) :
    Audited (deliver fromStr broker node result job body nowUnixMs) := by
  have answers : result.auditBody ≠ none := fun none => nomatch filed.symm.trans none
  have drops := (drops_send (broker.removeJob result.id) job.responder body.response).trans
    (drops_removeJob broker result.id)
  unfold deliver
  generalize resolved : (broker.removeJob result.id).send job.responder body.response = removed
    at drops ⊢
  have gone : removed.jobs result.id = none := by
    rw [← resolved, send_jobs, removeJob_jobs, Function.update_self]
  have silent : removed.uploads result.id = none :=
    drops.uploads ▸ audited.unanswered result.id job live
  have audits : removed.audits = broker.audits := by
    rw [← resolved, send_audits, removeJob_audits]
  have credited : Audited (removed.credit node result job body nowUnixMs) :=
    credit_audited node result body nowUnixMs (audited.drops drops) gone silent
      (drops.nextId ▸ sound.fresh _ _ live)
  have upload : (removed.credit node result job body nowUnixMs).uploads result.id =
      some (node, body) := Function.update_self ..
  simp only [fileBody]
  split
  · rename_i isTwin
    refine setPairBody_audited fromStr credited (fun _ => rfl) fun pair there => ⟨?_, ?_⟩
    · exact (credited.pairs result.id pair there).primary
    · rintro _ ⟨⟩
      have open_ : broker.audits result.id = some pair := audits ▸ there
      have distinct : node ≠ pair.primaryNode :=
        twin_uploader_ne audited placed live accepted answers isTwin open_
      exact ⟨node, rfl, upload, distinct⟩
  · rename_i primary
    cases link : job.twinId with
    | none => exact credited
    | some twinId =>
        refine setPairBody_audited fromStr credited (fun _ => rfl) fun pair there => ⟨?_, ?_⟩
        · rintro _ ⟨⟩
          have named := audited.linked result.id job twinId live (eq_false_of_ne_true primary) link
          refine ⟨result.id, (congrFun drops.primaryOf twinId).trans named, ?_⟩
          have own : node = pair.primaryNode := by
            refine not_not.mp fun foreign => placed ⟨job, live, accepted, answers, .inl ?_⟩
            exact ⟨eq_false_of_ne_true primary, twinId, link, pair, audits ▸ there, foreign⟩
          exact own ▸ upload
        · exact (credited.pairs twinId pair there).twin

/-- A failure that is counted leaves the audits. -/
theorem failOnce_audited (audited : Audited broker) (live : broker.jobs id = some job) :
    Audited (broker.setJob id job.failOnce) :=
  audited.setJob live rfl rfl (fun _ => .inl) fun node expiry lease =>
    audited.held id job node expiry live lease

/-- Any answer leaves the broker audited, unless the primary is displaced. -/
theorem complete_audited (node : Nat) (result : JobResult) (nowUnixMs : Nat)
    (sound : Sound broker []) (audited : Audited broker)
    (placed : ¬ broker.Displaced (.complete node result nowUnixMs)) :
    Audited (complete fromStr broker node result nowUnixMs) := by
  have completion := complete_completion fromStr broker node result nowUnixMs
  generalize complete fromStr broker node result nowUnixMs = next at completion ⊢
  cases completion with
  | stale refused => exact audited
  | @delivered job body live accepted filed =>
      exact deliver_audited fromStr node result body nowUnixMs sound audited placed live accepted
        filed
  | keyRejected live accepted outcome =>
      have marked : Sound (broker.markKeyBad node) [] := sound.congr ⟨rfl, rfl, rfl, rfl, rfl⟩
      have drops : Drops (broker.markKeyBad node) broker := { Drops.rfl broker with }
      exact release_audited marked (audited.drops drops) false
  | exhausted live accepted outcome reached =>
      exact (failOnce_audited audited live).drops (drops_abandon _ _ _)
  | requeued live accepted outcome within =>
      exact release_audited (failOnce_sound sound live within) (failOnce_audited audited live) false

/-- Leases that end leave the broker audited. -/
theorem releaseAll_audited (expired : List Nat) (sound : Sound broker [])
    (audited : Audited broker) : Audited (broker.releaseAll expired) := by
  refine (List.foldlRecOn expired _ (motive := fun current => Sound current [] ∧ Audited current)
    ⟨sound, audited⟩ fun current both id _ => ?_).2
  exact ⟨release_sound both.1 true, release_audited both.1 both.2 true⟩

/-- No answer to an audited job comes from a displaced node. -/
def Placed (broker : Broker) (call : Call) (next : Broker) : Prop :=
  Step fromStr broker call next ∧ ¬ broker.Displaced call

/-- **One call** leaves the broker audited, if it displaces no primary. -/
theorem step_audited {call : Call} {next : Broker} (sound : Sound broker [])
    (audited : Audited broker) (step : Placed fromStr broker call next) : Audited next := by
  obtain ⟨⟨_, rfl⟩, placed⟩ := step
  cases call with
  | fetch host method path now => exact fetch_audited audited host method path now
  | takeJobs poll hosts => exact takeJobs_audited poll hosts audited
  | complete node result nowUnixMs =>
      exact complete_audited fromStr node result nowUnixMs sound audited placed
  | sweep now expired stale =>
      exact (releaseAll_audited expired sound audited).drops (drops_dropTwins _ _)
  | enrollRuntime id name => exact audited.drops { Drops.rfl broker with }
  | touch id now => exact audited.drops { Drops.rfl broker with }

/-- **Audit verdicts compare two nodes.** In every run in which no answer to an
audited job comes from a displaced node, each verdict recorded names the uploader
of the primary body and the uploader of the twin body, and they differ. -/
theorem verdicts_sound_of_not_displaced {calls : List Call}
    (run : Run (Placed fromStr) new calls broker) :
    ∀ event ∈ broker.verdicts, VerdictSound broker event := by
  have both : Sound broker [] ∧ Audited broker := by
    refine run.invariant (fun state => Sound state [] ∧ Audited state) ?_ ⟨sound_new, audited_new⟩
    rintro source call target ⟨sound, audited⟩ step
    exact ⟨step_sound fromStr sound step.1, step_audited fromStr sound audited step⟩
  exact both.2.verdicts

end Results

/-- An audited fetch: node 1 answers the primary, node 2 the twin. -/
def auditedCalls : List Call :=
  [.enrollRuntime 1 "a", .enrollRuntime 2 "b", .touch 1 0, .touch 2 0,
    .fetch "europe" "match-v5.match" "/x" 0,
    .takeJobs ⟨1, fun _ => 0, 5, 5, fun _ => true⟩ ["europe"],
    .takeJobs ⟨2, fun _ => 0, 6, 6, fun _ => false⟩ ["europe"],
    .complete 1 ⟨1, .ok, some "1", none⟩ 7, .complete 2 ⟨2, .ok, some "1", none⟩ 8]

/-- The verdict of the audited fetch names nodes 1 and 2. -/
theorem verdicts_sound_of_not_displaced_audited :
    Run (Placed (some : String → Option String)) new auditedCalls (after some auditedCalls) ∧
      ∃ event ∈ (after (some : String → Option String) auditedCalls).verdicts,
        event.primaryNode = 1 ∧ event.twinNode = 2 ∧
        VerdictSound (after (some : String → Option String) auditedCalls) event := by
  have run : Run (Placed (some : String → Option String)) new auditedCalls
      (after some auditedCalls) := by
    refine .cons ⟨⟨trivial, rfl⟩, by decide⟩ <| .cons ⟨⟨trivial, rfl⟩, by decide⟩ <|
      .cons ⟨⟨trivial, rfl⟩, by decide⟩ <| .cons ⟨⟨trivial, rfl⟩, by decide⟩ <|
      .cons ⟨⟨trivial, rfl⟩, by decide⟩ <|
      .cons ⟨⟨enumerates_host (by decide) ?_, rfl⟩, by decide⟩ <|
      .cons ⟨⟨enumerates_host (by decide) ?_, rfl⟩, by decide⟩ <|
      .cons ⟨⟨trivial, rfl⟩, by decide⟩ <| .cons ⟨⟨trivial, rfl⟩, by decide⟩ (.nil _)
    · exact fun other distinct => Function.update_of_ne distinct ..
    · intro other distinct
      exact (Function.update_of_ne distinct ..).trans <|
        (Function.update_of_ne distinct ..).trans <| Function.update_of_ne distinct ..
  exact ⟨run, _, List.mem_singleton_self _, rfl, rfl,
    verdicts_sound_of_not_displaced _ run _ (List.mem_singleton_self _)⟩

/-- Node 1 loses its lease on an audited primary, and node 2, which may run the
twin, is handed and answers both jobs. -/
def displacedCalls : List Call :=
  [.enrollRuntime 1 "a", .enrollRuntime 2 "b", .touch 1 0, .touch 2 0,
    .fetch "europe" "match-v5.match" "/x" 0,
    .takeJobs ⟨1, fun _ => 0, 5, 5, fun _ => true⟩ ["europe"],
    .sweep 200000 [1] [],
    .takeJobs ⟨2, fun _ => 0, 200001, 200001, fun _ => false⟩ ["europe"],
    .complete 2 ⟨1, .ok, some "1", none⟩ 200002, .complete 2 ⟨2, .ok, some "1", none⟩ 200003]

/-- Node 2 audits itself, and node 1 is credited with the verdict. -/
theorem displaced_primary_audits_itself :
    ∃ broker, Run (Step (some : String → Option String)) new displacedCalls broker ∧
      broker.primaryOf 2 = some 1 ∧
      broker.uploads 1 = some (2, .found "1") ∧ broker.uploads 2 = some (2, .found "1") ∧
      ∃ event ∈ broker.verdicts, event.twinId = 2 ∧ event.primaryNode = 1 ∧
        event.twinNode = 2 ∧ ¬ VerdictSound broker event := by
  have leased : Run (Step (some : String → Option String)) new (displacedCalls.take 6)
      (after some (displacedCalls.take 6)) := by
    refine .cons ⟨trivial, rfl⟩ <| .cons ⟨trivial, rfl⟩ <| .cons ⟨trivial, rfl⟩ <|
      .cons ⟨trivial, rfl⟩ <| .cons ⟨trivial, rfl⟩ <|
      .cons ⟨enumerates_host (by decide) ?_, rfl⟩ (.nil _)
    exact fun other distinct => Function.update_of_ne distinct ..
  have expired := run_after_concat _ (.sweep 200000 [1] []) leased <| by
    have sound := run_sound _ leased
    refine ⟨sound.enumerates (fun id ⟨job, _, _, live, _⟩ => ⟨job, live⟩) (by decide) (by decide)
      (by decide), (releaseAll_sound [1] sound).enumerates (fun id ⟨job, live, _⟩ => ⟨job, live⟩)
        (by decide) (by decide) (by decide)⟩
  have polled := run_after_concat _
    (.takeJobs ⟨2, fun _ => 0, 200001, 200001, fun _ => false⟩ ["europe"]) expired <| by
    refine enumerates_host (by decide) fun other distinct => ?_
    exact (Function.update_of_ne distinct ..).trans <| (Function.update_of_ne distinct ..).trans <|
      (Function.update_of_ne distinct ..).trans <| Function.update_of_ne distinct ..
  have first := run_after_concat _ (.complete 2 ⟨1, .ok, some "1", none⟩ 200002) polled trivial
  have second := run_after_concat _ (.complete 2 ⟨2, .ok, some "1", none⟩ 200003) first trivial
  refine ⟨_, second, by decide, by decide, by decide, _, List.mem_singleton_self _,
    rfl, rfl, rfl, ?_⟩
  rintro ⟨primaryId, _, _, named, primary, twin, distinct, _⟩
  cases named
  cases primary
  cases twin
  exact distinct rfl

end LolCrawler.Broker
