import Mathlib.Logic.Function.Iterate
import LolCrawler.Broker.Audits
import LolCrawler.Broker.Offers

/-! # Who is credited

A node is credited for a request when its answer is accepted: once in the registry and once for
the leaderboard. The answer settles the fetch and takes the job from the table, so no job is
credited twice, however often its result is posted and whoever held it in between. A verdict
counts for both of its nodes. Whatever else a call does, it credits nobody, and a fetch that it
settles fails (`Uncredited`).
-/

namespace LolCrawler

/-- What the registry counts of a node. -/
def NodeRt.books (node : NodeRt) : NodeRt := { node with lastSeen := none, keyBad := false }

def NodeRt.tally (node : NodeRt) : AuditVerdict → Nat
  | .pass => node.auditsPass
  | .hardFail => node.auditsHardFail
  | .softFail => node.auditsSoftFail

/-- The call enrolls the node. -/
def Call.enrols (node : Nat) : Call → Bool
  | .enrollRuntime id _ => id = node
  | _ => false

namespace Registry

/-- The counts of a node, once for each entry. -/
def books (registry : Registry) (node : Nat) : List NodeRt :=
  (registry.filter fun entry => entry.1 = node).map fun entry => entry.2.books

/-- A change of one node changes the books of no other. -/
theorem books_modify {change change' : NodeRt → NodeRt} (registry : Registry) (id node : Nat)
    (counts : ∀ rt, (change rt).books = change' rt.books) :
    (registry.modify id change).books node =
      if id = node then (registry.books node).map change' else registry.books node := by
  induction registry with
  | nil => simp [modify, books]
  | cons entry registry ih =>
      obtain ⟨other, rt⟩ := entry
      unfold books modify at ih ⊢
      rw [List.map_cons, List.filter_cons, List.filter_cons]
      by_cases own : other = id
      · subst own
        by_cases here : other = node
        · subst here
          simp only [↓reduceIte, decide_true, List.map_cons, counts] at ih ⊢
          rw [ih]
        · simp only [here, ↓reduceIte, decide_false, Bool.false_eq_true] at ih ⊢
          exact ih
      · by_cases here : other = node
        · subst here
          simp only [own, Ne.symm own, ↓reduceIte, decide_true, List.map_cons] at ih ⊢
          rw [ih]
        · simp only [own, here, ↓reduceIte, decide_false, Bool.false_eq_true] at ih ⊢
          exact ih

/-- A change that leaves the counters of a node as they are leaves the books. -/
theorem books_modify_same {change : NodeRt → NodeRt} (registry : Registry) (id node : Nat)
    (silent : ∀ rt, (change rt).books = rt.books) :
    (registry.modify id change).books node = registry.books node := by
  rw [@books_modify change (fun rt => rt) registry id node silent]
  simp

/-- That a node was seen leaves its books alone. -/
theorem books_touch (registry : Registry) (id now node : Nat) :
    (registry.touch id now).books node = registry.books node :=
  books_modify_same registry id node fun _ => rfl

/-- A key that goes bad leaves the books alone. -/
theorem books_setKeyBad (registry : Registry) (id node : Nat) (bad : Bool) :
    (registry.setKeyBad id bad).books node = registry.books node :=
  books_modify_same registry id node fun _ => rfl

/-- A completed job is in the books of its node alone. -/
theorem books_jobCompleted (registry : Registry) (id node : Nat) :
    (registry.jobCompleted id).books node =
      if id = node then
        (registry.books node).map fun rt => { rt with completed := rt.completed + 1 }
      else registry.books node :=
  books_modify registry id node fun _ => rfl

/-- A verdict is in the books as it is in the node. -/
theorem books_countVerdict (verdict : AuditVerdict) (rt : NodeRt) :
    (countVerdict verdict rt).books = countVerdict verdict rt.books := by
  cases verdict with
  | _ => rfl

/-- How often a verdict on two nodes counts for a node. -/
def parties (first second node : Nat) : Nat :=
  (if first = node then 1 else 0) + if second = node then 1 else 0

/-- **A verdict** is counted once for each of the two nodes, twice if they are one. -/
theorem books_auditResult (registry : Registry) (first second node : Nat) (verdict : AuditVerdict) :
    (registry.auditResult first second verdict).books node =
      (registry.books node).map (countVerdict verdict)^[parties first second node] := by
  have counts := books_countVerdict verdict
  rw [auditResult, books_modify _ second node counts, books_modify registry first node counts,
    parties]
  by_cases one : first = node
  · by_cases two : second = node
    · simp [one, two]
    · simp [one, two]
  · by_cases two : second = node
    · simp [one, two]
    · simp [one, two]

/-- A node that enrolls starts with empty books. -/
theorem books_enrollRuntime (registry : Registry) (id : Nat) (name : String) (node : Nat) :
    (registry.enrollRuntime id name).books node =
      if id = node then [⟨name, none, 0, 0, 0, 0, false⟩] else registry.books node := by
  unfold enrollRuntime books
  rw [List.filter_append, List.filter_filter]
  by_cases own : id = node
  · subst own
    simp [NodeRt.books]
  · have same : (registry.filter fun entry => decide (entry.1 = node) && decide (entry.1 ≠ id)) =
        registry.filter fun entry => decide (entry.1 = node) := by
      refine List.filter_congr fun entry _ => ?_
      by_cases here : entry.1 = node
      · simp [here, Ne.symm own]
      · simp [here]
    rw [same]
    simp [own]

end Registry

namespace Broker

open Foundation

/-- The answers of a node that were credited. -/
def credits (broker : Broker) (node : Nat) : Nat :=
  broker.stats.countP fun entry => entry.1 = node

/-- The jobs that a node has answered. -/
def answered (broker : Broker) (node : Nat) : Nat :=
  (List.range broker.nextId).countP fun id => (broker.uploads id).any fun upload => upload.1 = node

/-- How often a node has been judged so, as the first node of an audit or as the second. -/
def judged (broker : Broker) (node : Nat) (verdict : AuditVerdict) : Nat :=
  (broker.verdicts.countP fun event => event.primaryNode = node && event.verdict = verdict) +
    broker.verdicts.countP fun event => event.twinNode = node && event.verdict = verdict

/-! ## Calls that credit nobody -/

/-- Nobody is credited, and what is settled has failed. -/
structure Uncredited (next broker : Broker) : Prop where
  stats : next.stats = broker.stats
  uploads : next.uploads = broker.uploads
  verdicts : next.verdicts = broker.verdicts
  books : ∀ node, next.registry.books node = broker.registry.books node
  nextId : broker.nextId ≤ next.nextId
  live : ∀ id, next.jobs id ≠ none → broker.jobs id ≠ none ∨ broker.nextId ≤ id ∧ id < next.nextId
  fetches : ∀ channel ∈ next.fetches,
    channel ∈ broker.fetches ∨ broker.nextId ≤ channel ∧ channel < next.nextId
  channels : ∀ channel, next.channels channel = broker.channels channel ∨
    (∃ why, next.channels channel = some (.error why)) ∧ next.jobs channel = none ∧
      channel < next.nextId ∧ (broker.jobs channel ≠ none ∨ broker.nextId ≤ channel)

namespace Uncredited

variable {broker next last : Broker} {id : Nat} {job : JobState}

/-- Nothing happens, and nobody earns anything. -/
theorem refl (broker : Broker) : Uncredited broker broker :=
  ⟨rfl, rfl, rfl, fun _ => rfl, Nat.le_refl _, fun _ here => .inl here, fun _ here => .inl here,
    fun _ => .inl rfl⟩

/-- Two changes, one after the other, that earn nobody anything. -/
theorem trans (second : Uncredited last next) (first : Uncredited next broker) :
    Uncredited last broker where
  stats := second.stats.trans first.stats
  uploads := second.uploads.trans first.uploads
  verdicts := second.verdicts.trans first.verdicts
  books node := (second.books node).trans (first.books node)
  nextId := Nat.le_trans first.nextId second.nextId
  live id here := by
    rcases second.live id here with before | ⟨low, high⟩
    · exact (first.live id before).imp_right fun ⟨low, high⟩ =>
        ⟨low, Nat.lt_of_lt_of_le high second.nextId⟩
    · exact .inr ⟨Nat.le_trans first.nextId low, high⟩
  fetches channel here := by
    rcases second.fetches channel here with before | ⟨low, high⟩
    · exact (first.fetches channel before).imp_right fun ⟨low, high⟩ =>
        ⟨low, Nat.lt_of_lt_of_le high second.nextId⟩
    · exact .inr ⟨Nat.le_trans first.nextId low, high⟩
  channels channel := by
    rcases second.channels channel with same | ⟨failed, gone, high, from'⟩
    · rw [same]
      refine (first.channels channel).imp_right fun ⟨failed, gone, high, from'⟩ =>
        ⟨failed, ?_, Nat.lt_of_lt_of_le high second.nextId, from'⟩
      by_contra live
      rcases second.live channel live with before | ⟨low, -⟩
      · exact before gone
      · omega
    · refine .inr ⟨failed, gone, high, ?_⟩
      rcases from' with live | new
      · exact (first.live channel live).imp_right And.left
      · exact .inr (Nat.le_trans first.nextId new)

/-- Jobs change or go, and nothing that credits read does. -/
theorem of_jobs (stats : next.stats = broker.stats) (uploads : next.uploads = broker.uploads)
    (verdicts : next.verdicts = broker.verdicts)
    (books : ∀ node, next.registry.books node = broker.registry.books node)
    (nextId : next.nextId = broker.nextId)
    (live : ∀ id, next.jobs id ≠ none → broker.jobs id ≠ none)
    (fetches : next.fetches = broker.fetches) (channels : next.channels = broker.channels) :
    Uncredited next broker :=
  ⟨stats, uploads, verdicts, books, Nat.le_of_eq nextId.symm, fun id here => .inl (live id here),
    fun _ here => .inl (fetches ▸ here), fun _ => .inl (by rw [channels])⟩

/-- A job that is there changes. -/
theorem setJob (live : broker.jobs id ≠ none) (job : JobState) :
    Uncredited (broker.setJob id job) broker := by
  refine .of_jobs rfl rfl rfl (fun _ => rfl) rfl (fun other here => ?_) rfl rfl
  by_cases own : other = id
  · exact own ▸ live
  · rw [setJob_jobs, Function.update_of_ne own] at here
    exact here

/-- Removing a job credits nobody. -/
theorem removeJob (broker : Broker) (id : Nat) : Uncredited (broker.removeJob id) broker := by
  refine .of_jobs rfl rfl rfl (fun _ => rfl) rfl (fun other here => ?_) rfl rfl
  by_cases own : other = id
  · rw [own, removeJob_jobs, Function.update_self] at here
    exact (here rfl).elim
  · rw [removeJob_jobs, Function.update_of_ne own] at here
    exact here

/-- Setting a queue credits nobody. -/
theorem setQueue (broker : Broker) (host : String) (queue : List (Nat × Option Nat)) :
    Uncredited (broker.setQueue host queue) broker :=
  .of_jobs rfl rfl rfl (fun _ => rfl) rfl (fun _ here => here) rfl rfl

/-- Queueing an entry credits nobody. -/
theorem pushBack (broker : Broker) (host : String) (entry : Nat × Option Nat) :
    Uncredited (broker.pushBack host entry) broker := .setQueue broker host _

/-- Removing an audit credits nobody. -/
theorem removeAudit (broker : Broker) (id : Nat) : Uncredited (broker.removeAudit id) broker :=
  .of_jobs rfl rfl rfl (fun _ => rfl) rfl (fun _ here => here) rfl rfl

/-- A job goes, and its fetch fails. -/
theorem fails (live : broker.jobs id = some job) (fresh : id < broker.nextId)
    (own : job.responder = none ∨ job.responder = some id) (why : String) :
    Uncredited ((broker.removeJob id).send job.responder (.error why)) broker := by
  have removed := Uncredited.removeJob broker id
  rcases own with silent | named
  · rw [silent]
    exact removed
  · rw [named]
    refine ⟨rfl, rfl, rfl, fun _ => rfl, Nat.le_refl _, removed.live, fun _ here => .inl here,
      fun channel => ?_⟩
    by_cases same : channel = id
    · subst same
      refine .inr ⟨⟨why, Function.update_self ..⟩, Function.update_self .., fresh, .inl ?_⟩
      rw [live]
      nofun
    · exact .inl (Function.update_of_ne same ..)

/-- Giving a job up credits nobody. -/
theorem abandon (live : broker.jobs id = some job) (fresh : id < broker.nextId)
    (own : job.responder = none ∨ job.responder = some id) (why : String) :
    Uncredited (broker.abandon id why) broker := by
  have failed := fails live fresh own ("job abandoned: " ++ why ++ " (" ++ job.path ++ ")")
  unfold Broker.abandon
  simp only [live]
  split
  · exact (removeAudit _ id).trans failed
  · cases job.twinId with
    | none => exact failed
    | some twinId => exact (removeJob _ twinId).trans ((removeAudit _ twinId).trans failed)

end Uncredited

variable {broker next : Broker} {id : Nat} {job : JobState} {taken : List Nat}

/-- The responder of a job is its own. -/
theorem Sound.own_responder (sound : Sound broker taken) (live : broker.jobs id = some job) :
    job.responder = none ∨ job.responder = some id := by
  rw [sound.responder _ _ live]
  split
  · exact .inl rfl
  · exact .inr rfl

/-- A job is given up after a change. -/
theorem setJob_abandon_uncredited (sound : Sound broker taken) (live : broker.jobs id = some job)
    (changed : JobState) (same : changed.responder = job.responder) (why : String) :
    Uncredited ((broker.setJob id changed).abandon id why) broker := by
  have there : (broker.setJob id changed).jobs id = some changed := Function.update_self ..
  have named : changed.responder = none ∨ changed.responder = some id :=
    same ▸ sound.own_responder live
  have changes : Uncredited (broker.setJob id changed) broker := .setJob (by rw [live]; nofun) _
  exact (Uncredited.abandon there (sound.fresh _ _ live) named why).trans changes

/-- A lease that ends earns nothing. -/
theorem release_uncredited (sound : Sound broker taken) (id : Nat) (countAttempt : Bool) :
    Uncredited (broker.release id countAttempt) broker := by
  unfold release
  cases live : broker.jobs id with
  | none => exact .refl broker
  | some job =>
      dsimp only
      split
      · exact setJob_abandon_uncredited sound live (job.unlease countAttempt) rfl _
      · exact (Uncredited.pushBack _ _ _).trans (.setJob (by rw [live]; nofun) _)

/-- The sweeper earns nobody anything. -/
theorem sweep_uncredited (sound : Sound broker []) (expired stale : List Nat) :
    Uncredited (broker.sweep expired stale) broker := by
  have released : Uncredited (broker.releaseAll expired) broker := by
    refine (List.foldlRecOn expired _ (motive := fun current => Sound current [] ∧
      Uncredited current broker) ⟨sound, .refl broker⟩ fun current both id _ => ?_).2
    exact ⟨release_sound both.1 true, (release_uncredited both.1 id true).trans both.2⟩
  refine Uncredited.trans ?_ released
  exact List.foldlRecOn stale _ (motive := fun current =>
    Uncredited current (broker.releaseAll expired)) (.refl _) fun current kept id _ =>
      (Uncredited.removeAudit _ id).trans ((Uncredited.removeJob current id).trans kept)

/-- A fetch earns nobody anything. -/
theorem fetch_uncredited (broker : Broker) (host method path : String) (now : Nat) :
    Uncredited (broker.fetch host method path now) broker := by
  refine ⟨rfl, rfl, rfl, fun _ => rfl, Nat.le_succ _, fun id here => ?_, fun channel here => ?_,
    fun _ => .inl rfl⟩
  · by_cases own : id = broker.nextId
    · exact .inr ⟨Nat.le_of_eq own.symm, own ▸ Nat.lt_succ_self _⟩
    · exact .inl fun none => here ((Function.update_of_ne own ..).trans none)
  · rcases List.mem_cons.mp here with rfl | before
    · exact .inr ⟨Nat.le_refl _, Nat.lt_succ_self _⟩
    · exact .inl before

/-- A lease earns nothing. -/
theorem leaseJob_uncredited (poll : Poll) (auditPossible : Bool) (dispatch : Dispatch) (id : Nat) :
    Uncredited (leaseJob poll auditPossible dispatch id).broker dispatch.broker := by
  unfold leaseJob
  cases live : dispatch.broker.jobs id with
  | none => exact .refl _
  | some job => exact .setJob (by rw [live]; nofun) _

/-- The jobs of a host are handed out without a credit. -/
theorem takeHost_uncredited (poll : Poll) (auditPossible : Bool) (dispatch : Dispatch)
    (host : String) :
    Uncredited (takeHost poll auditPossible dispatch host).broker dispatch.broker := by
  unfold takeHost
  cases dispatch.broker.queues host with
  | none => exact .refl _
  | some queue =>
      exact List.foldlRecOn _ _
        (motive := fun current => Uncredited current.broker dispatch.broker)
        (b := { dispatch with broker := dispatch.broker.setQueue host _ })
        (.setQueue _ _ _)
        fun current kept id _ => (leaseJob_uncredited poll auditPossible current id).trans kept

/-- A twin that is queued earns nothing. -/
theorem createTwin_uncredited (poll : Poll) (broker : Broker)
    (twin : Nat × String × String × String) : Uncredited (createTwin poll broker twin) broker := by
  obtain ⟨primaryId, host, method, path⟩ := twin
  rw [createTwin_eq]
  have inserted : Uncredited ({ broker with
      nextId := broker.nextId + 1
      primaryOf := Function.update broker.primaryOf broker.nextId (some primaryId) }.setJob
        broker.nextId (newTwin poll primaryId host method path)) broker := by
    refine ⟨rfl, rfl, rfl, fun _ => rfl, Nat.le_succ _, fun id here => ?_, fun _ here => .inl here,
      fun _ => .inl rfl⟩
    by_cases own : id = broker.nextId
    · exact .inr ⟨Nat.le_of_eq own.symm, own ▸ Nat.lt_succ_self _⟩
    · exact .inl fun none => here ((Function.update_of_ne own ..).trans none)
  have linked : ∀ current : Broker,
      Uncredited (current.linkTwin primaryId broker.nextId) current := by
    intro current
    unfold linkTwin
    cases live : current.jobs primaryId with
    | none => exact .refl _
    | some job => exact .setJob (by rw [live]; nofun) _
  have filed : ∀ (current : Broker) (pair : AuditPair),
      Uncredited (current.setAudit broker.nextId pair) current := fun current pair =>
    .of_jobs rfl rfl rfl (fun _ => rfl) rfl (fun _ here => here) rfl rfl
  exact (filed _ _).trans ((Uncredited.pushBack _ _ _).trans ((linked _).trans inserted))

/-- A poll earns nothing. -/
theorem takeJobs_uncredited (broker : Broker) (poll : Poll) (hosts : List String) :
    Uncredited (broker.takeJobs poll hosts).1 broker := by
  unfold takeJobs
  refine List.foldlRecOn _ (createTwin poll)
    (motive := fun current => Uncredited current broker) ?_
    fun current kept twin _ => (createTwin_uncredited poll current twin).trans kept
  exact List.foldlRecOn hosts _
    (motive := fun dispatch => Uncredited dispatch.broker broker)
    (b := { broker := broker, out := [], newTwins := [] }) (.refl broker)
    fun current kept host _ => (takeHost_uncredited poll _ current host).trans kept

/-! ## Answers -/

section Results

variable {Value : Type} [DecidableEq Value] (fromStr : String → Option Value)
variable {node nowUnixMs : Nat} {result : JobResult} {body : AuditBody}

/-- A verdict on two nodes, in the registry and in the history. -/
def judge (broker : Broker) (event : VerdictEvent) : Broker :=
  { broker with
    registry := broker.registry.auditResult event.primaryNode event.twinNode event.verdict
    verdicts := broker.verdicts ++ [event] }

/-- What two states need to have in common for credits. -/
structure SameCredits (next broker : Broker) : Prop where
  stats : next.stats = broker.stats
  uploads : next.uploads = broker.uploads
  verdicts : next.verdicts = broker.verdicts
  registry : next.registry = broker.registry

/-- Two changes, one after the other, that keep the credits. -/
theorem SameCredits.trans {last next broker : Broker} (second : SameCredits last next)
    (first : SameCredits next broker) : SameCredits last broker :=
  ⟨second.stats.trans first.stats, second.uploads.trans first.uploads,
    second.verdicts.trans first.verdicts, second.registry.trans first.registry⟩

/-- The same verdict on both keeps the credits the same. -/
theorem SameCredits.judge {next broker : Broker} (same : SameCredits next broker)
    (event : VerdictEvent) : SameCredits (next.judge event) (broker.judge event) :=
  ⟨same.stats, same.uploads, by rw [Broker.judge, Broker.judge, same.verdicts],
    by rw [Broker.judge, Broker.judge, same.registry]⟩

/-- **An answer** credits the node, and perhaps a verdict is reached. -/
theorem deliver_credits (broker : Broker) (job : JobState) :
    SameCredits (deliver fromStr broker node result job body nowUnixMs)
        (broker.credit node result job body nowUnixMs) ∨
      ∃ event, SameCredits (deliver fromStr broker node result job body nowUnixMs)
        ((broker.credit node result job body nowUnixMs).judge event) := by
  have resolved : SameCredits (((broker.removeJob result.id).send job.responder
      body.response).credit node result job body nowUnixMs)
        (broker.credit node result job body nowUnixMs) := by
    cases job.responder with
    | none => exact ⟨rfl, rfl, rfl, rfl⟩
    | some channel => exact ⟨rfl, rfl, rfl, rfl⟩
  have filed : ∀ (current : Broker) (twinId : Nat) (change : AuditPair → AuditPair),
      SameCredits (finishAuditIfReady fromStr (current.setPairBody twinId change) twinId) current ∨
        ∃ event, SameCredits (finishAuditIfReady fromStr (current.setPairBody twinId change) twinId)
          (current.judge event) := by
    intro current twinId change
    have same : SameCredits (current.setPairBody twinId change) current := by
      unfold setPairBody
      cases current.audits twinId with
      | none => exact ⟨rfl, rfl, rfl, rfl⟩
      | some pair => exact ⟨rfl, rfl, rfl, rfl⟩
    generalize current.setPairBody twinId change = changed at same
    unfold finishAuditIfReady
    cases changed.audits twinId with
    | none => exact .inl same
    | some pair =>
        simp only
        split
        · next first second _ _ =>
            refine .inr ⟨⟨twinId, pair.primaryNode, pair.twinNode.getD 0, first, second,
              if first.equal fromStr second then .pass
              else if pair.method ∈ immutableMethods then .hardFail else .softFail⟩, ?_⟩
            exact ⟨same.stats, same.uploads, by rw [judge, same.verdicts],
              by rw [judge, same.registry]⟩
        · exact .inl same
  have moved : ∀ {next current : Broker}, SameCredits current
        (broker.credit node result job body nowUnixMs) →
      (SameCredits next current ∨ ∃ event, SameCredits next (current.judge event)) →
        SameCredits next (broker.credit node result job body nowUnixMs) ∨ ∃ event,
          SameCredits next ((broker.credit node result job body nowUnixMs).judge event) := by
    intro next current same either
    rcases either with kept | ⟨event, kept⟩
    · exact .inl (kept.trans same)
    · exact .inr ⟨event, kept.trans (same.judge event)⟩
  unfold deliver fileBody
  simp only
  split
  · exact moved resolved (filed _ _ _)
  · cases job.twinId with
    | none => exact .inl resolved
    | some twinId => exact moved resolved (filed _ _ _)

end Results

/-! ## What holds in every run -/

/-- An answered fetch is one whose job was answered, and each answer is credited. -/
structure Settled (broker : Broker) : Prop where
  unused : ∀ id, broker.nextId ≤ id → broker.channels id = none ∧ broker.uploads id = none
  asked : ∀ channel ∈ broker.fetches, channel < broker.nextId
  pending : ∀ id, broker.jobs id ≠ none → broker.channels id = none ∧ broker.uploads id = none
  told : ∀ channel ∈ broker.fetches, ∀ body, broker.channels channel = some (.ok body) ↔
    ∃ node answer, broker.uploads channel = some (node, answer) ∧ answer.response = .ok body
  counts : ∀ node, broker.credits node = broker.answered node

/-- A new broker is settled. -/
theorem settled_new : Settled new :=
  ⟨fun _ _ => ⟨rfl, rfl⟩, nofun, fun _ _ => ⟨rfl, rfl⟩, nofun, fun _ => rfl⟩

/-- New ids without an upload are no answers. -/
theorem answered_grows {node : Nat} (uploads : next.uploads = broker.uploads)
    (nextId : broker.nextId ≤ next.nextId)
    (unused : ∀ id, broker.nextId ≤ id → broker.uploads id = none) :
    next.answered node = broker.answered node := by
  unfold answered
  rw [uploads]
  obtain ⟨more, grown⟩ := Nat.exists_eq_add_of_le nextId
  rw [grown]
  clear grown
  induction more with
  | zero => rfl
  | succ more ih =>
      rw [← Nat.add_assoc, List.range_succ, List.countP_append, ih]
      simp [unused (broker.nextId + more) (Nat.le_add_right _ _)]

/-- One more job is answered. -/
theorem countP_range_update {before after : Nat → Bool} {id : Nat} (bound : Nat)
    (inside : id < bound)
    (others : ∀ other, other ≠ id → after other = before other) (no : before id = false) :
    (List.range bound).countP after =
      (List.range bound).countP before + if after id then 1 else 0 := by
  induction bound with
  | zero => omega
  | succ bound ih =>
      rw [List.range_succ, List.countP_append, List.countP_append, List.countP_singleton,
        List.countP_singleton]
      by_cases last : id = bound
      · subst last
        have same : (List.range id).countP after = (List.range id).countP before :=
          List.countP_congr fun other low => by
            rw [others other (Nat.ne_of_lt (List.mem_range.mp low))]
        rw [same, no]
        simp
      · rw [ih (by omega), others bound (Ne.symm last)]
        omega

/-- What earns nothing keeps the broker settled. -/
theorem Settled.uncredited (settled : Settled broker) (same : Uncredited next broker) :
    Settled next where
  unused id above := by
    obtain ⟨silent, none⟩ := settled.unused id (Nat.le_trans same.nextId above)
    rw [same.uploads]
    refine ⟨?_, none⟩
    rcases same.channels id with kept | ⟨-, -, high, -⟩
    · exact kept.trans silent
    · omega
  asked channel here := by
    rcases same.fetches channel here with before | ⟨-, high⟩
    · exact Nat.lt_of_lt_of_le (settled.asked channel before) same.nextId
    · exact high
  pending id live := by
    have before : broker.channels id = none ∧ broker.uploads id = none := by
      rcases same.live id live with old | ⟨low, -⟩
      · exact settled.pending id old
      · exact settled.unused id low
    rw [same.uploads]
    rcases same.channels id with kept | ⟨-, gone, -, -⟩
    · exact ⟨kept.trans before.1, before.2⟩
    · exact (live gone).elim
  told channel here body := by
    rw [same.uploads]
    have settles : ∀ silent : broker.channels channel = none ∧ broker.uploads channel = none,
        (∃ why, next.channels channel = some (.error why)) ∨ next.channels channel = none →
          (next.channels channel = some (.ok body) ↔ ∃ node answer,
            broker.uploads channel = some (node, answer) ∧ answer.response = .ok body) := by
      rintro ⟨-, none⟩ failed
      rw [none]
      refine ⟨fun ok => ?_, fun ⟨_, _, found, _⟩ => nomatch found⟩
      rcases failed with ⟨why, failed⟩ | silent
      · rw [failed] at ok
        cases ok
      · rw [silent] at ok
        cases ok
    rcases same.channels channel with kept | ⟨failed, -, -, from'⟩
    · rcases same.fetches channel here with before | ⟨low, -⟩
      · rw [kept]
        exact settled.told channel before body
      · have unused := settled.unused channel low
        exact settles unused (.inr (kept.trans unused.1))
    · rcases from' with live | low
      · exact settles (settled.pending channel live) (.inl failed)
      · exact settles (settled.unused channel low) (.inl failed)
  counts node := by
    rw [answered_grows same.uploads same.nextId fun id above => (settled.unused id above).2,
      ← settled.counts, credits, same.stats]
    rfl

/-- The counts of a node in the registry, against those of the history since this state. -/
def Balanced (node : Nat) (name : String) (since broker : Broker) : Prop :=
  ∃ rt, broker.registry.books node = [rt] ∧ rt.name = name ∧
    rt.completed + since.credits node = broker.credits node ∧
      ∀ verdict, rt.tally verdict + since.judged node verdict = broker.judged node verdict

section Balanced

variable {node : Nat} {name : String} {since : Broker}

/-- What leaves the books alone keeps them balanced. -/
theorem Balanced.same (balanced : Balanced node name since broker)
    (stats : next.stats = broker.stats) (verdicts : next.verdicts = broker.verdicts)
    (books : next.registry.books node = broker.registry.books node) :
    Balanced node name since next := by
  obtain ⟨rt, own, named, done, judged⟩ := balanced
  refine ⟨rt, books.trans own, named, ?_, fun verdict => ?_⟩
  · rw [done, credits, credits, stats]
  · rw [judged verdict, Broker.judged, Broker.judged, verdicts]

/-- A credit keeps the books balanced. -/
theorem Balanced.credit (balanced : Balanced node name since broker) (uploader : Nat)
    (result : JobResult) (job : JobState) (body : AuditBody) (nowUnixMs : Nat) :
    Balanced node name since (broker.credit uploader result job body nowUnixMs) := by
  obtain ⟨rt, own, named, done, judged⟩ := balanced
  have books := broker.registry.books_jobCompleted uploader node
  have credited : (broker.credit uploader result job body nowUnixMs).credits node =
      broker.credits node + if uploader = node then 1 else 0 := by
    rw [Broker.credits, Broker.credit, List.countP_append, List.countP_singleton]
    simp [Broker.credits]
  by_cases same : uploader = node
  · rw [if_pos same, own] at books
    refine ⟨{ rt with completed := rt.completed + 1 }, books, named, ?_, judged⟩
    rw [credited, if_pos same, ← done]
    exact Nat.add_right_comm _ _ _
  · rw [if_neg same, own] at books
    refine ⟨rt, books, named, ?_, judged⟩
    rw [credited, if_neg same]
    exact done

/-- A verdict counts once under its own name. -/
theorem tally_countVerdict (verdict other : AuditVerdict) (rt : NodeRt) :
    (Registry.countVerdict verdict rt).tally other =
      rt.tally other + if verdict = other then 1 else 0 := by
  cases verdict with
  | pass =>
      cases other with
      | _ => rfl
  | hardFail =>
      cases other with
      | _ => rfl
  | softFail =>
      cases other with
      | _ => rfl

/-- Several verdicts count as often as they are given. -/
theorem countVerdict_iterate (verdict : AuditVerdict) (times : Nat) (rt : NodeRt) :
    ((Registry.countVerdict verdict)^[times] rt).name = rt.name ∧
      ((Registry.countVerdict verdict)^[times] rt).completed = rt.completed ∧
      ∀ other, ((Registry.countVerdict verdict)^[times] rt).tally other =
        rt.tally other + if verdict = other then times else 0 := by
  induction times with
  | zero => simp
  | succ times ih =>
      obtain ⟨name, completed, tally⟩ := ih
      rw [Function.iterate_succ_apply']
      refine ⟨?_, ?_, fun other => ?_⟩
      · rw [← name]
        cases verdict with
        | _ => rfl
      · rw [← completed]
        cases verdict with
        | _ => rfl
      · rw [tally_countVerdict, tally other]
        split
        · omega
        · omega

/-- A verdict that is recorded keeps the books balanced. -/
theorem Balanced.judge (balanced : Balanced node name since broker) (event : VerdictEvent) :
    Balanced node name since (broker.judge event) := by
  obtain ⟨rt, own, named, done, judged⟩ := balanced
  have books := broker.registry.books_auditResult event.primaryNode event.twinNode node
    event.verdict
  rw [own, List.map_singleton] at books
  obtain ⟨name', completed', tally'⟩ := countVerdict_iterate event.verdict
    (Registry.parties event.primaryNode event.twinNode node) rt
  refine ⟨_, books, name'.trans named, by rw [completed']; exact done, fun verdict => ?_⟩
  have before := judged verdict
  rw [tally' verdict]
  unfold Broker.judged at before ⊢
  simp only [Broker.judge, List.countP_append, List.countP_singleton, Registry.parties]
  by_cases same : event.verdict = verdict
  · simp only [same, decide_true, Bool.and_true, decide_eq_true_eq, ↓reduceIte]
    omega
  · simp only [same, decide_false, Bool.and_false, Bool.false_eq_true, ↓reduceIte]
    omega

end Balanced

/-! ## Steps -/

section Steps

variable {Value : Type} [DecidableEq Value] (fromStr : String → Option Value)
variable {node nowUnixMs : Nat} {result : JobResult} {body : AuditBody}

/-- The credit of an answer, whatever else it decides. -/
theorem deliver_stats (broker : Broker) (job : JobState) :
    (deliver fromStr broker node result job body nowUnixMs).stats =
      (broker.credit node result job body nowUnixMs).stats := by
  rcases @deliver_credits _ _ fromStr node nowUnixMs result body broker job with same | ⟨_, same⟩
  · exact same.stats
  · exact same.stats

/-- An answer keeps the broker settled. -/
theorem Settled.deliver (settled : Settled broker) (sound : Sound broker [])
    (live : broker.jobs result.id = some job) :
    Settled (deliver fromStr broker node result job body nowUnixMs) := by
  have table := deliver_sameTable fromStr broker node result job body nowUnixMs
  have uploads := deliver_uploads fromStr broker node result job body nowUnixMs
  have nextId : (Broker.deliver fromStr broker node result job body nowUnixMs).nextId =
      broker.nextId := by rw [table.nextId, send_nextId, removeJob_nextId]
  have silent := settled.pending result.id (by rw [live]; nofun)
  have below := sound.fresh _ _ live
  have others : ∀ channel, channel ≠ result.id →
      (Broker.deliver fromStr broker node result job body nowUnixMs).channels channel =
        broker.channels channel := fun channel other => by
    rw [table.channels]
    exact send_other (sound.responder_ne live other) _
  have kept : ∀ id, id ≠ result.id →
      (Broker.deliver fromStr broker node result job body nowUnixMs).uploads id =
        broker.uploads id := fun id other => by rw [uploads, Function.update_of_ne other]
  have own : (Broker.deliver fromStr broker node result job body nowUnixMs).uploads result.id =
      some (node, body) := by rw [uploads, Function.update_self]
  refine ⟨fun id above => ?_, fun channel here => ?_, fun id there => ?_,
    fun channel here text => ?_, fun other => ?_⟩
  · rw [nextId] at above
    have away : id ≠ result.id := by omega
    rw [others id away, kept id away]
    exact settled.unused id above
  · rw [table.fetches, send_fetches, removeJob_fetches] at here
    rw [nextId]
    exact settled.asked channel here
  · rw [table.jobs, send_jobs, removeJob_jobs] at there
    have away : id ≠ result.id := fun same => there (by rw [same, Function.update_self])
    rw [Function.update_of_ne away] at there
    rw [others id away, kept id away]
    exact settled.pending id there
  · rw [table.fetches, send_fetches, removeJob_fetches] at here
    by_cases same : channel = result.id
    · subst same
      obtain ⟨found, there, responder⟩ := sound.pending _ here silent.1
      obtain rfl : job = found := Option.some.inj (live.symm.trans there)
      rw [table.channels, responder, send_resolves, own, Option.some.injEq]
      constructor
      · exact fun ok => ⟨node, body, rfl, ok⟩
      · rintro ⟨_, _, ⟨⟩, ok⟩
        exact ok
    · rw [others channel same, kept channel same]
      exact settled.told channel here text
  · have stats : (Broker.deliver fromStr broker node result job body nowUnixMs).credits other =
        broker.credits other + if node = other then 1 else 0 := by
      rw [Broker.credits, deliver_stats, Broker.credit, List.countP_append, List.countP_singleton]
      simp [Broker.credits]
    have answers := @countP_range_update
      (fun id => (broker.uploads id).any fun upload => upload.1 = other)
      (fun id => ((Broker.deliver fromStr broker node result job body nowUnixMs).uploads id).any
        fun upload => upload.1 = other) result.id broker.nextId below
      (fun id away => by simp only [kept id away]) (by simp [silent.2])
    rw [stats, answered, nextId, answers, settled.counts other, own]
    simp [answered]

/-- An answer keeps the books balanced. -/
theorem Balanced.deliver {name : String} {since : Broker} {own : Nat}
    (balanced : Balanced own name since broker) :
    Balanced own name since (deliver fromStr broker node result job body nowUnixMs) := by
  have credited := balanced.credit node result job body nowUnixMs
  rcases @deliver_credits _ _ fromStr node nowUnixMs result body broker job with
    same | ⟨event, same⟩
  · exact credited.same same.stats same.verdicts (by rw [same.registry])
  · exact (credited.judge event).same same.stats same.verdicts (by rw [same.registry])

/-- **A result** is an answer, or credits nobody. -/
theorem complete_credits (sound : Sound broker []) (node : Nat) (result : JobResult)
    (nowUnixMs : Nat) :
    Uncredited (complete fromStr broker node result nowUnixMs) broker ∨
      ∃ job body, broker.jobs result.id = some job ∧
        complete fromStr broker node result nowUnixMs =
          deliver fromStr broker node result job body nowUnixMs := by
  have completion := complete_completion fromStr broker node result nowUnixMs
  generalize complete fromStr broker node result nowUnixMs = next at completion ⊢
  cases completion with
  | stale refused => exact .inl (.refl broker)
  | delivered live accepted filed => exact .inr ⟨_, _, live, rfl⟩
  | keyRejected live accepted outcome =>
      have marked : Uncredited (broker.markKeyBad node) broker :=
        .of_jobs rfl rfl rfl (fun other => Registry.books_setKeyBad _ _ _ _) rfl
          (fun _ here => here) rfl rfl
      have held : Sound (broker.markKeyBad node) [] := sound.congr ⟨rfl, rfl, rfl, rfl, rfl⟩
      exact .inl ((release_uncredited held _ _).trans marked)
  | @exhausted job live accepted outcome reached =>
      exact .inl (setJob_abandon_uncredited sound live job.failOnce rfl _)
  | requeued live accepted outcome within =>
      exact .inl ((release_uncredited (failOnce_sound sound live within) _ _).trans
        (.setJob (by rw [live]; nofun) _))

/-- What a call that is no answer and no enrolment does. -/
theorem step_credits {call : Call} (sound : Sound broker [])
    (step : Step fromStr broker call next) :
    Uncredited next broker ∨ (∃ id name, call = .enrollRuntime id name) ∨
      ∃ node result nowUnixMs job body, call = .complete node result nowUnixMs ∧
        broker.jobs result.id = some job ∧
          next = deliver fromStr broker node result job body nowUnixMs := by
  obtain ⟨-, rfl⟩ := step
  cases call with
  | fetch host method path now => exact .inl (fetch_uncredited broker host method path now)
  | takeJobs poll hosts => exact .inl (takeJobs_uncredited broker poll hosts)
  | complete node result nowUnixMs =>
      rcases complete_credits fromStr sound node result nowUnixMs with same | ⟨job, body, live, is⟩
      · exact .inl same
      · exact .inr (.inr ⟨node, result, nowUnixMs, job, body, rfl, live, is⟩)
  | sweep now expired stale => exact .inl (sweep_uncredited sound expired stale)
  | enrollRuntime id name => exact .inr (.inl ⟨id, name, rfl⟩)
  | touch id now =>
      exact .inl (.of_jobs rfl rfl rfl (fun other => Registry.books_touch _ _ _ _) rfl
        (fun _ here => here) rfl rfl)

/-- **One call** keeps the broker settled. -/
theorem step_settled {call : Call} (sound : Sound broker []) (settled : Settled broker)
    (step : Step fromStr broker call next) : Settled next := by
  rcases step_credits fromStr sound step with same | ⟨id, name, rfl⟩ |
    ⟨node, result, nowUnixMs, job, body, -, live, rfl⟩
  · exact settled.uncredited same
  · obtain ⟨-, rfl⟩ := step
    exact ⟨settled.unused, settled.asked, settled.pending, settled.told, settled.counts⟩
  · exact settled.deliver fromStr sound live

/-- **One call** keeps the books of a node balanced, unless it enrolls the node. -/
theorem step_balanced {call : Call} {node : Nat} {name : String} {since : Broker}
    (sound : Sound broker []) (balanced : Balanced node name since broker)
    (other : call.enrols node = false) (step : Step fromStr broker call next) :
    Balanced node name since next := by
  rcases step_credits fromStr sound step with same | ⟨id, name, rfl⟩ |
    ⟨uploader, result, nowUnixMs, job, body, -, -, rfl⟩
  · exact balanced.same same.stats same.verdicts (same.books node)
  · obtain ⟨-, rfl⟩ := step
    refine balanced.same rfl rfl ?_
    have away : id ≠ node := of_decide_eq_false other
    exact (Registry.books_enrollRuntime _ _ _ _).trans (if_neg away)
  · exact balanced.deliver fromStr

/-! ## Runs -/

/-- **A run** keeps the books of a node balanced if the node enrolls in none of its calls. -/
theorem run_balanced {later : List Call} {start since : Broker} {node : Nat} {name : String}
    (sound : Sound start []) (balanced : Balanced node name since start)
    (run : Run (Step fromStr) start later broker)
    (once : ∀ call ∈ later, call.enrols node = false) : Balanced node name since broker := by
  induction run with
  | nil state => exact balanced
  | cons step run ih =>
      have next := step_balanced fromStr sound balanced (once _ List.mem_cons_self) step
      exact ih (step_sound fromStr sound step) next fun call inside =>
        once call (List.mem_cons_of_mem _ inside)

/-- **Every answer is credited once.** In every run: a fetch is answered by a body or a 404 exactly
if an answer for its job was accepted, with that body; and a node is credited on the leaderboard
once for each job that it answered. And since a node was enrolled, the registry has counted the
jobs it answered, and each verdict once for each of the two nodes it is about. -/
theorem answers_credited_once {before later : List Call} {since : Broker} {node : Nat}
    {name : String} (past : Run (Step fromStr) new before since)
    (run : Run (Step fromStr) (since.apply fromStr (.enrollRuntime node name)) later broker)
    (once : ∀ call ∈ later, call.enrols node = false) :
    (∀ channel ∈ broker.fetches, ∀ body, broker.channels channel = some (.ok body) ↔
        ∃ uploader answer, broker.uploads channel = some (uploader, answer) ∧
          answer.response = .ok body) ∧
      (∀ other, broker.credits other = broker.answered other) ∧
      ∃ rt, (broker.registry.filter fun entry => entry.1 = node) = [(node, rt)] ∧
        rt.name = name ∧ rt.completed + since.answered node = broker.answered node ∧
          ∀ verdict, rt.tally verdict + since.judged node verdict = broker.judged node verdict := by
  have reached : Sound since [] ∧ Settled since :=
    past.invariant (fun state => Sound state [] ∧ Settled state)
      (fun _ _ _ held step => ⟨step_sound fromStr held.1 step,
        step_settled fromStr held.1 held.2 step⟩) ⟨sound_new, settled_new⟩
  have enrolled : Step fromStr since (.enrollRuntime node name)
      (since.apply fromStr (.enrollRuntime node name)) := ⟨trivial, rfl⟩
  have fresh : Balanced node name since (since.apply fromStr (.enrollRuntime node name)) :=
    ⟨⟨name, none, 0, 0, 0, 0, false⟩,
      (Registry.books_enrollRuntime _ _ _ _).trans (if_pos rfl), rfl, Nat.zero_add _,
      fun verdict => by
        cases verdict with
        | _ => exact Nat.zero_add _⟩
  have start : Sound (since.apply fromStr (.enrollRuntime node name)) [] ∧
      Settled (since.apply fromStr (.enrollRuntime node name)) :=
    ⟨step_sound fromStr reached.1 enrolled, step_settled fromStr reached.1 reached.2 enrolled⟩
  have settled := (run.invariant (fun state => Sound state [] ∧ Settled state)
    (fun _ _ _ held step => ⟨step_sound fromStr held.1 step,
      step_settled fromStr held.1 held.2 step⟩) start).2
  have balanced := run_balanced fromStr start.1 fresh run once
  obtain ⟨books, own, named, done, judged⟩ := balanced
  refine ⟨settled.told, settled.counts, ?_⟩
  obtain ⟨entry, only, rfl⟩ := List.map_eq_singleton_iff.mp own
  have key : entry.1 = node := by
    have inside : entry ∈ broker.registry.filter fun entry => entry.1 = node :=
      only ▸ List.mem_singleton_self _
    exact of_decide_eq_true (List.mem_filter.mp inside).2
  refine ⟨entry.2, by rw [only, ← key], named, ?_, fun verdict => ?_⟩
  · rw [← reached.2.counts, ← settled.counts]
    exact done
  · rw [← judged verdict]
    cases verdict with
    | _ => rfl

end Steps

/-- Two nodes answer an audited fetch, and each has completed a job and passed an audit. -/
theorem answers_credited_once_audited :
    (after (some : String → Option String) auditedCalls).channels 1 = some (.ok "1") ∧
      ∃ rt, ((after (some : String → Option String) auditedCalls).registry.filter
          fun entry => entry.1 = 1) = [(1, rt)] ∧
        rt.completed + 0 = 1 ∧ rt.tally .pass + 0 = 1 := by
  have run : Run (Step (some : String → Option String))
      (new.apply some (.enrollRuntime 1 "a")) auditedCalls.tail (after some auditedCalls) := by
    refine .cons ⟨trivial, rfl⟩ <| .cons ⟨trivial, rfl⟩ <| .cons ⟨trivial, rfl⟩ <|
      .cons ⟨trivial, rfl⟩ <| .cons ⟨enumerates_host (by decide) ?_, rfl⟩ <|
      .cons ⟨enumerates_host (by decide) ?_, rfl⟩ <|
      .cons ⟨trivial, rfl⟩ <| .cons ⟨trivial, rfl⟩ (.nil _)
    · exact fun other distinct => Function.update_of_ne distinct ..
    · intro other distinct
      exact (Function.update_of_ne distinct ..).trans <|
        (Function.update_of_ne distinct ..).trans <| Function.update_of_ne distinct ..
  obtain ⟨told, -, rt, only, -, done, judged⟩ :=
    answers_credited_once some (.nil new) run (by decide)
  refine ⟨(told 1 (List.mem_singleton_self _) "1").mpr ⟨1, .found "1", rfl, rfl⟩, rt, only, ?_, ?_⟩
  · exact done
  · exact judged .pass

end Broker

end LolCrawler
