import LolCrawler.Broker.Calls

/-! # No fetch is lost

A fetch is pending until something is sent on its channel. `Broker.Sound` is the
invariant under which every pending fetch still has a live job: an unleased job
is in the queue of its host, so some node will be offered it, and a leased one is
released by the sweeper. While `takeJobs` runs, the picked ids are in neither
place; they are the second argument of the invariant.
-/

namespace LolCrawler.Broker

open Foundation

/-- The job table is consistent, up to the unleased ids in `taken`. -/
structure Sound (broker : Broker) (taken : List Nat) : Prop where
  fresh : ∀ id job, broker.jobs id = some job → id < broker.nextId
  responder : ∀ id job, broker.jobs id = some job →
    job.responder = if job.isTwin then none else some id
  linked : ∀ id job twinId, broker.jobs id = some job → job.isTwin = false →
    job.twinId = some twinId → twinId < broker.nextId ∧
      ∀ twin, broker.jobs twinId = some twin → twin.isTwin = true
  queued : ∀ id job, broker.jobs id = some job → job.lease = none → id ∈ taken ∨
    ∃ queue, broker.queues job.host = some queue ∧ (id, job.excludeNode) ∈ queue
  attempts : ∀ id job, broker.jobs id = some job → job.attempts < maxAttempts
  pending : ∀ channel ∈ broker.fetches, broker.channels channel = none →
    ∃ job, broker.jobs channel = some job ∧ job.responder = some channel

/-- Two states with the same jobs, queues and channels; audits, registry and
statistics may differ. -/
structure SameTable (next broker : Broker) : Prop where
  jobs : next.jobs = broker.jobs
  queues : next.queues = broker.queues
  nextId : next.nextId = broker.nextId
  channels : next.channels = broker.channels
  fetches : next.fetches = broker.fetches

/-- A table is the same as itself. -/
theorem SameTable.rfl (broker : Broker) : SameTable broker broker :=
  ⟨Eq.refl _, Eq.refl _, Eq.refl _, Eq.refl _, Eq.refl _⟩

/-- Two changes, one after the other, that keep the table. -/
theorem SameTable.trans {last next broker : Broker} (second : SameTable last next)
    (first : SameTable next broker) : SameTable last broker :=
  ⟨second.jobs.trans first.jobs, second.queues.trans first.queues,
    second.nextId.trans first.nextId, second.channels.trans first.channels,
    second.fetches.trans first.fetches⟩

/-- `next` has dropped some jobs and audit pairs of `broker` and changed nothing
else but channels. -/
structure Drops (next broker : Broker) : Prop where
  jobs : ∀ id job, next.jobs id = some job → broker.jobs id = some job
  audits : ∀ id pair, next.audits id = some pair → broker.audits id = some pair
  queues : next.queues = broker.queues
  nextId : next.nextId = broker.nextId
  uploads : next.uploads = broker.uploads
  primaryOf : next.primaryOf = broker.primaryOf
  verdicts : next.verdicts = broker.verdicts

/-- Nothing is dropped. -/
theorem Drops.rfl (broker : Broker) : Drops broker broker :=
  ⟨fun _ _ live => live, fun _ _ there => there, Eq.refl _, Eq.refl _, Eq.refl _, Eq.refl _,
    Eq.refl _⟩

/-- Two changes, one after the other, that only drop. -/
theorem Drops.trans {last next broker : Broker} (second : Drops last next)
    (first : Drops next broker) : Drops last broker where
  jobs := fun id job live => first.jobs id job (second.jobs id job live)
  audits := fun id pair there => first.audits id pair (second.audits id pair there)
  queues := second.queues.trans first.queues
  nextId := second.nextId.trans first.nextId
  uploads := second.uploads.trans first.uploads
  primaryOf := second.primaryOf.trans first.primaryOf
  verdicts := second.verdicts.trans first.verdicts

/-- Erasing a key of a map loses entries and gains none. -/
theorem of_update_none {Entry : Type} {map : Nat → Option Entry} {key id : Nat} {entry : Entry}
    (found : Function.update map key none id = some entry) : map id = some entry := by
  by_cases same : id = key
  · rw [same, Function.update_self] at found
    cases found
  · rwa [Function.update_of_ne same] at found

/-- A job that is gone is dropped. -/
theorem drops_removeJob (broker : Broker) (id : Nat) : Drops (broker.removeJob id) broker :=
  { Drops.rfl broker with jobs := fun _ _ => of_update_none }

/-- An audit that is gone is dropped. -/
theorem drops_removeAudit (broker : Broker) (id : Nat) : Drops (broker.removeAudit id) broker :=
  { Drops.rfl broker with audits := fun _ _ => of_update_none }

/-- An answer that is sent drops nothing. -/
theorem drops_send (broker : Broker) (responder : Option Nat) (result : FetchResult) :
    Drops (broker.send responder result) broker := by
  cases responder with
  | none => exact Drops.rfl broker
  | some channel => exact { Drops.rfl broker with }

/-- A job that is given up is dropped. -/
theorem drops_abandon (broker : Broker) (id : Nat) (why : String) :
    Drops (broker.abandon id why) broker := by
  unfold abandon
  cases broker.jobs id with
  | none => exact Drops.rfl broker
  | some job =>
      have resolved := (drops_send (broker.removeJob id) job.responder
        (.error ("job abandoned: " ++ why ++ " (" ++ job.path ++ ")"))).trans
          (drops_removeJob broker id)
      simp only
      split
      · exact (drops_removeAudit _ _).trans resolved
      · cases job.twinId with
        | none => exact resolved
        | some twinId =>
            exact (drops_removeJob _ _).trans ((drops_removeAudit _ _).trans resolved)

/-- Twins that are stale are dropped. -/
theorem drops_dropTwins (broker : Broker) (stale : List Nat) :
    Drops (broker.dropTwins stale) broker :=
  List.foldlRecOn stale _ (motive := fun current => Drops current broker) (Drops.rfl broker)
    fun _ drops _ _ => (drops_removeAudit _ _).trans ((drops_removeJob _ _).trans drops)

/-- A new broker is sound. -/
theorem sound_new : Sound new [] where
  fresh := fun _ _ live => nomatch live
  responder := fun _ _ live => nomatch live
  linked := fun _ _ _ live => nomatch live
  queued := fun _ _ live => nomatch live
  attempts := fun _ _ live => nomatch live
  pending := fun _ member => nomatch member

variable {broker : Broker} {taken rest : List Nat} {id : Nat} {job : JobState}

namespace Sound

/-- The invariant reads the job table, the queues and the channels only. -/
theorem congr {next : Broker} (sound : Sound broker taken) (same : SameTable next broker) :
    Sound next taken := by
  obtain ⟨fresh, responder, linked, queued, attempts, pending⟩ := sound
  obtain ⟨jobs, queues, nextId, channels, fetches⟩ := same
  constructor
  · rwa [jobs, nextId]
  · rwa [jobs]
  · rwa [jobs, nextId]
  · rwa [jobs, queues]
  · rwa [jobs]
  · rwa [jobs, channels, fetches]

/-- Rewriting a live job keeps the invariant when its audit links stay those of a
twin and it is queued, leased or exempt afterwards. -/
theorem setJob {old : JobState} (sound : Sound broker taken) (live : broker.jobs id = some old)
    (responder : job.responder = old.responder) (isTwin : job.isTwin = old.isTwin)
    (links : job.isTwin = false → ∀ twinId, job.twinId = some twinId → twinId < broker.nextId ∧
      ∀ twin, broker.jobs twinId = some twin → twin.isTwin = true)
    (attempts : job.attempts < maxAttempts) (kept : ∀ other ∈ taken, other ≠ id → other ∈ rest)
    (queued : job.lease = none → id ∈ rest ∨
      ∃ queue, broker.queues job.host = some queue ∧ (id, job.excludeNode) ∈ queue) :
    Sound (broker.setJob id job) rest where
  fresh := by
    intro other current found
    by_cases same : other = id
    · subst same
      exact sound.fresh _ _ live
    · rw [setJob_jobs, Function.update_of_ne same] at found
      exact sound.fresh _ _ found
  responder := by
    intro other current found
    by_cases same : other = id
    · subst same
      rw [setJob_jobs, Function.update_self, Option.some.injEq] at found
      subst found
      rw [responder, isTwin]
      exact sound.responder _ _ live
    · rw [setJob_jobs, Function.update_of_ne same] at found
      exact sound.responder _ _ found
  linked := by
    intro other current twinId found primary named
    have old : twinId < broker.nextId ∧
        ∀ twin, broker.jobs twinId = some twin → twin.isTwin = true := by
      by_cases same : other = id
      · subst same
        rw [setJob_jobs, Function.update_self, Option.some.injEq] at found
        subst found
        exact links primary _ named
      · rw [setJob_jobs, Function.update_of_ne same] at found
        exact sound.linked _ _ _ found primary named
    refine ⟨old.1, fun twin there => ?_⟩
    by_cases same : twinId = id
    · subst same
      rw [setJob_jobs, Function.update_self, Option.some.injEq] at there
      subst there
      exact isTwin.trans (old.2 _ live)
    · rw [setJob_jobs, Function.update_of_ne same] at there
      exact old.2 _ there
  queued := by
    intro other current found unleased
    by_cases same : other = id
    · subst same
      rw [setJob_jobs, Function.update_self, Option.some.injEq] at found
      subst found
      exact queued unleased
    · rw [setJob_jobs, Function.update_of_ne same] at found
      exact (sound.queued _ _ found unleased).imp_left fun member => kept _ member same
  attempts := by
    intro other current found
    by_cases same : other = id
    · subst same
      rw [setJob_jobs, Function.update_self, Option.some.injEq] at found
      exact found ▸ attempts
    · rw [setJob_jobs, Function.update_of_ne same] at found
      exact sound.attempts _ _ found
  pending := by
    intro channel opened silent
    obtain ⟨current, found, answers⟩ := sound.pending channel opened silent
    by_cases same : channel = id
    · subst same
      refine ⟨job, by rw [setJob_jobs, Function.update_self], ?_⟩
      rw [live, Option.some.injEq] at found
      rw [responder, found, answers]
    · exact ⟨current, by rwa [setJob_jobs, Function.update_of_ne same], answers⟩

/-- Queueing an exempt job under its own host and exclusion ends its exemption. -/
theorem pushBack (job : JobState) (sound : Sound broker (id :: taken))
    (live : broker.jobs id = some job) :
    Sound (broker.pushBack job.host (id, job.excludeNode)) taken where
  fresh := sound.fresh
  responder := sound.responder
  linked := sound.linked
  queued := by
    intro other current found unleased
    rw [pushBack_queues]
    by_cases own : other = id
    · subst own
      rw [show broker.jobs other = some current from found, Option.some.injEq] at live
      subst live
      exact .inr ⟨_, Function.update_self .., List.mem_append_right _ (List.mem_singleton_self _)⟩
    · refine (sound.queued other current found unleased).imp
        (fun member => (List.mem_cons.mp member).resolve_left own) ?_
      rintro ⟨queue, there, member⟩
      by_cases same : current.host = job.host
      · refine ⟨_, by rw [same, Function.update_self], List.mem_append_left _ ?_⟩
        rwa [← same, there]
      · exact ⟨queue, by rwa [Function.update_of_ne same], member⟩
  attempts := sound.attempts
  pending := sound.pending

/-- Dropping a live job keeps the invariant once its channel, if any, is resolved. -/
theorem removeJob {next : Broker} (sound : Sound broker taken)
    (live : broker.jobs id = some job) (jobs : next.jobs = Function.update broker.jobs id none)
    (queues : next.queues = broker.queues) (nextId : next.nextId = broker.nextId)
    (fetches : next.fetches = broker.fetches)
    (resolved : job.isTwin = false → next.channels id ≠ none)
    (silentBefore : ∀ channel, next.channels channel = none → broker.channels channel = none) :
    Sound next taken := by
  have survives : ∀ {other current}, next.jobs other = some current →
      broker.jobs other = some current := by
    intro other current found
    by_cases same : other = id
    · rw [jobs, same, Function.update_self] at found
      cases found
    · rwa [jobs, Function.update_of_ne same] at found
  constructor
  · intro other current found
    exact nextId ▸ sound.fresh _ _ (survives found)
  · intro other current found
    exact sound.responder _ _ (survives found)
  · intro other current twinId found primary named
    obtain ⟨below, twins⟩ := sound.linked _ _ _ (survives found) primary named
    exact ⟨nextId ▸ below, fun twin there => twins _ (survives there)⟩
  · intro other current found unleased
    rw [queues]
    exact sound.queued _ _ (survives found) unleased
  · intro other current found
    exact sound.attempts _ _ (survives found)
  · intro channel opened silent
    rw [fetches] at opened
    obtain ⟨current, found, answers⟩ := sound.pending channel opened (silentBefore channel silent)
    by_cases same : channel = id
    · subst same
      rw [live, Option.some.injEq] at found
      subst found
      have primary : job.isTwin = false := by
        have answer := sound.responder _ _ live
        rw [answers] at answer
        cases twin : job.isTwin with
        | false => rfl
        | true => rw [twin] at answer; cases answer
      exact (resolved primary silent).elim
    · exact ⟨current, by rwa [jobs, Function.update_of_ne same], answers⟩

/-- A fresh job keeps the invariant, exempt until it is queued. -/
theorem insert {next : Broker} (sound : Sound broker taken)
    (jobs : next.jobs = Function.update broker.jobs broker.nextId (some job))
    (queues : next.queues = broker.queues) (nextId : next.nextId = broker.nextId + 1)
    (channels : next.channels = broker.channels)
    (fetches : ∀ channel ∈ next.fetches, channel ∈ broker.fetches ∨
      channel = broker.nextId ∧ job.isTwin = false)
    (responder : job.responder = if job.isTwin then none else some broker.nextId)
    (unlinked : job.isTwin = false → job.twinId = none) (attempts : job.attempts < maxAttempts) :
    Sound next (broker.nextId :: taken) := by
  have old : ∀ {other current}, next.jobs other = some current →
      other = broker.nextId ∧ current = job ∨
        other ≠ broker.nextId ∧ broker.jobs other = some current := by
    intro other current found
    by_cases same : other = broker.nextId
    · rw [jobs, same, Function.update_self, Option.some.injEq] at found
      exact .inl ⟨same, found.symm⟩
    · rw [jobs, Function.update_of_ne same] at found
      exact .inr ⟨same, found⟩
  constructor
  · intro other current found
    rw [nextId]
    rcases old found with ⟨rfl, _⟩ | ⟨_, found⟩
    · exact Nat.lt_succ_self _
    · exact Nat.lt_succ_of_lt (sound.fresh _ _ found)
  · intro other current found
    rcases old found with ⟨rfl, rfl⟩ | ⟨_, found⟩
    · exact responder
    · exact sound.responder _ _ found
  · intro other current twinId found primary named
    rw [nextId]
    rcases old found with ⟨rfl, rfl⟩ | ⟨_, found⟩
    · rw [unlinked primary] at named
      cases named
    · obtain ⟨below, twins⟩ := sound.linked _ _ _ found primary named
      refine ⟨Nat.lt_succ_of_lt below, fun twin there => ?_⟩
      rcases old there with ⟨same, _⟩ | ⟨_, there⟩
      · exact (Nat.ne_of_lt below same).elim
      · exact twins _ there
  · intro other current found unleased
    rw [queues]
    rcases old found with ⟨rfl, _⟩ | ⟨_, found⟩
    · exact .inl List.mem_cons_self
    · exact (sound.queued _ _ found unleased).imp_left (List.mem_cons_of_mem _)
  · intro other current found
    rcases old found with ⟨_, rfl⟩ | ⟨_, found⟩
    · exact attempts
    · exact sound.attempts _ _ found
  · intro channel opened silent
    rcases fetches channel opened with opened | ⟨rfl, primary⟩
    · rw [channels] at silent
      obtain ⟨current, found, answers⟩ := sound.pending channel opened silent
      have distinct : channel ≠ broker.nextId := Nat.ne_of_lt (sound.fresh _ _ found)
      exact ⟨current, by rwa [jobs, Function.update_of_ne distinct], answers⟩
    · exact ⟨job, by rw [jobs, Function.update_self], by rw [responder, primary]; rfl⟩

/-- Forget exemptions of ids that are no longer live. -/
theorem drop (sound : Sound broker (id :: taken)) (dead : broker.jobs id = none) :
    Sound broker taken :=
  { sound with
    queued := by
      intro other current found unleased
      refine (sound.queued _ _ found unleased).imp_left fun member => ?_
      refine (List.mem_cons.mp member).resolve_left fun same => ?_
      rw [same, dead] at found
      cases found }

end Sound

/-- Sending never empties a channel. -/
theorem send_silent (broker : Broker) (responder : Option Nat) (result : FetchResult)
    (channel : Nat) (silent : (broker.send responder result).channels channel = none) :
    broker.channels channel = none := by
  cases responder with
  | none => exact silent
  | some own =>
      change Function.update broker.channels own _ channel = none at silent
      by_cases same : channel = own
      · rw [same, Function.update_self] at silent
        cases silent
      · rwa [Function.update_of_ne same] at silent

/-- A primary's own channel is resolved by a send on its responder. -/
theorem send_resolves (broker : Broker) (own : Nat) (result : FetchResult) :
    (broker.send (some own) result).channels own = some result :=
  Function.update_self ..

/-- A fetch keeps the broker sound. -/
theorem fetch_sound (sound : Sound broker []) (host method path : String) (now : Nat) :
    Sound (broker.fetch host method path now) [] := by
  refine Sound.pushBack (newPrimary broker.nextId host method path now) ?_
    (Function.update_self ..)
  refine sound.insert rfl rfl rfl rfl ?_ rfl (fun _ => rfl) (show 0 < maxAttempts by decide)
  intro channel opened
  exact (List.mem_cons.mp opened).symm.imp_right fun same => ⟨same, rfl⟩

/-- Abandoning a job resolves its channel, whatever its lease and attempts were
just set to. -/
theorem abandon_sound (job : JobState) {old : JobState} (sound : Sound broker taken)
    (live : broker.jobs id = some old) (responder : job.responder = old.responder)
    (isTwin : job.isTwin = old.isTwin) (twinId : job.twinId = old.twinId) (why : String) :
    Sound ((broker.setJob id job).abandon id why) taken := by
  have answer := sound.responder _ _ live
  have removed : Sound (((broker.setJob id job).removeJob id).send job.responder
      (.error ("job abandoned: " ++ why ++ " (" ++ job.path ++ ")"))) taken := by
    refine sound.removeJob live ?_ (by simp) (by simp) (by simp) ?_
      (fun channel => send_silent _ _ _ channel)
    · simp only [send_jobs, removeJob_jobs, setJob_jobs, Function.update_idem]
    · intro primary
      rw [responder, answer, primary]
      exact fun silent => nomatch (send_resolves _ _ _).symm.trans silent
  unfold abandon
  simp only [setJob_jobs, Function.update_self]
  split
  · exact removed.congr ⟨rfl, rfl, rfl, rfl, rfl⟩
  · cases named : job.twinId with
    | none => exact removed
    | some twin =>
        by_cases present : ∃ current, (((broker.setJob id job).removeJob id).send job.responder
            (.error ("job abandoned: " ++ why ++ " (" ++ job.path ++ ")"))).jobs twin =
              some current
        · obtain ⟨current, there⟩ := present
          refine removed.removeJob there rfl rfl rfl rfl (fun primary => ?_)
            (fun _ silent => silent)
          have before : broker.jobs twin = some current := by
            by_cases same : twin = id
            · rw [send_jobs, removeJob_jobs, same, Function.update_self] at there
              cases there
            · rwa [send_jobs, removeJob_jobs, Function.update_of_ne same, setJob_jobs,
                Function.update_of_ne same] at there
          have twins := (sound.linked _ _ twin live
            (isTwin ▸ eq_false_of_ne_true ‹_›) (twinId ▸ named)).2 _ before
          rw [primary] at twins
          cases twins
        · refine removed.congr ⟨?_, rfl, rfl, rfl, rfl⟩
          refine Function.update_eq_self_iff.mpr ?_
          cases there : (((broker.setJob id job).removeJob id).send job.responder
            (.error ("job abandoned: " ++ why ++ " (" ++ job.path ++ ")"))).jobs twin with
          | none => exact there.symm
          | some current => exact (present ⟨current, there⟩).elim

/-- Putting a job back on its queue, or abandoning it when its attempts ran out. -/
theorem release_sound (sound : Sound broker taken) (countAttempt : Bool) :
    Sound (broker.release id countAttempt) taken := by
  unfold release
  cases live : broker.jobs id with
  | none => exact sound
  | some job =>
      have below := sound.attempts _ _ live
      simp only
      split
      · exact abandon_sound (job.unlease countAttempt) sound live rfl rfl rfl _
      · rename_i within
        have there : (broker.setJob id (job.unlease countAttempt)).jobs id =
            some (job.unlease countAttempt) := Function.update_self ..
        refine Sound.pushBack (job.unlease countAttempt) ?_ there
        refine sound.setJob live rfl rfl
          (fun primary twinId named => sound.linked _ _ twinId live primary named) ?_
          (fun other member _ => List.mem_cons_of_mem _ member)
          (fun _ => .inl List.mem_cons_self)
        cases countAttempt with
        | false => exact below
        | true => exact Nat.lt_of_not_le fun reached => within ⟨rfl, reached⟩

/-! ## Dispatch -/

/-- Every entry is either picked or kept. -/
theorem mem_pick (node : Nat) (entry : Nat × Option Nat) :
    ∀ (cap : Nat) (queue : List (Nat × Option Nat)), entry ∈ queue →
      entry.1 ∈ (pick node cap queue).1 ∨ entry ∈ (pick node cap queue).2
  | 0, _, member => by
      simp only [pick, member, or_true]
  | _ + 1, [], member => nomatch member
  | cap + 1, head :: queue, member => by
      unfold pick
      by_cases excluded : head.2 = some node
      · simp only [excluded, ↓reduceIte]
        rcases List.mem_cons.mp member with rfl | member
        · exact .inr List.mem_cons_self
        · exact (mem_pick node entry (cap + 1) queue member).imp_right (List.mem_cons_of_mem _)
      · simp only [excluded, ↓reduceIte]
        rcases List.mem_cons.mp member with rfl | member
        · exact .inl List.mem_cons_self
        · exact (mem_pick node entry cap queue member).imp_left (List.mem_cons_of_mem _)

/-- Leasing a picked id ends its exemption, whether or not its job is still live. -/
theorem leaseJob_sound (poll : Poll) (auditPossible : Bool) (dispatch : Dispatch)
    (sound : Sound dispatch.broker (id :: taken)) :
    Sound (leaseJob poll auditPossible dispatch id).broker taken := by
  unfold leaseJob
  cases live : dispatch.broker.jobs id with
  | none => exact sound.drop live
  | some job =>
      refine sound.setJob live rfl rfl
        (fun primary twinId named => sound.linked _ _ twinId live primary named)
        (sound.attempts _ job live) ?_ (fun unleased => nomatch unleased)
      exact fun other member distinct => (List.mem_cons.mp member).resolve_left distinct

/-- The jobs that were picked are leased one by one, and none is left over. -/
theorem leaseAll_sound (poll : Poll) (auditPossible : Bool) (picked : List Nat) :
    ∀ dispatch : Dispatch, Sound dispatch.broker picked →
      Sound (picked.foldl (leaseJob poll auditPossible) dispatch).broker [] := by
  induction picked with
  | nil => exact fun _ sound => sound
  | cons id picked ih =>
      intro dispatch sound
      exact ih _ (leaseJob_sound poll auditPossible dispatch sound)

/-- The jobs of a host are handed out, and the broker stays sound. -/
theorem takeHost_sound (poll : Poll) (auditPossible : Bool) (dispatch : Dispatch)
    (host : String) (sound : Sound dispatch.broker []) :
    Sound (takeHost poll auditPossible dispatch host).broker [] := by
  unfold takeHost
  cases there : dispatch.broker.queues host with
  | none => exact sound
  | some queue =>
      refine leaseAll_sound poll auditPossible _ _ { sound with queued := ?_ }
      intro id job found unleased
      obtain member | ⟨own, named, member⟩ := sound.queued id job found unleased
      · cases member
      · by_cases same : job.host = host
        · rw [same, there, Option.some.injEq] at named
          subst named
          refine (mem_pick poll.node _ _ _ member).imp_right fun kept => ⟨_, ?_, kept⟩
          rw [setQueue_queues, same, Function.update_self]
        · exact .inr ⟨own, by rwa [setQueue_queues, Function.update_of_ne same], member⟩

/-- Linking a primary to a live twin keeps the invariant. -/
theorem linkTwin_sound {twinId : Nat} {twin : JobState} (sound : Sound broker taken)
    (there : broker.jobs twinId = some twin) (isTwin : twin.isTwin = true) (primaryId : Nat) :
    Sound (broker.linkTwin primaryId twinId) taken := by
  unfold linkTwin
  cases live : broker.jobs primaryId with
  | none => exact sound
  | some job =>
      refine sound.setJob live rfl rfl ?_ (sound.attempts _ job live) (fun _ member _ => member)
        (fun unleased => sound.queued _ job live unleased)
      intro _ named same
      cases same
      refine ⟨sound.fresh _ _ there, fun current found => ?_⟩
      rw [there, Option.some.injEq] at found
      exact found ▸ isTwin

/-- Linking changes no job but for its twin. -/
theorem linkTwin_live (twinId primaryId : Nat) (live : broker.jobs id = some job) :
    ∃ linked, (broker.linkTwin primaryId twinId).jobs id = some linked ∧
      { linked with twinId := job.twinId } = job := by
  unfold linkTwin
  cases primary : broker.jobs primaryId with
  | none => exact ⟨job, live, rfl⟩
  | some current =>
      by_cases same : id = primaryId
      · subst same
        rw [live, Option.some.injEq] at primary
        subst primary
        exact ⟨_, Function.update_self .., rfl⟩
      · exact ⟨job, by rwa [setJob_jobs, Function.update_of_ne same], rfl⟩

/-- A twin is queued, and the broker stays sound. -/
theorem createTwin_sound (poll : Poll) (twin : Nat × String × String × String)
    (sound : Sound broker []) : Sound (createTwin poll broker twin) [] := by
  obtain ⟨primaryId, host, method, path⟩ := twin
  have inserted : Sound ({ broker with nextId := broker.nextId + 1 }.setJob broker.nextId
      (newTwin poll primaryId host method path)) [broker.nextId] :=
    sound.insert rfl rfl rfl rfl (fun _ opened => .inl opened) rfl
      (fun primary => nomatch primary) (show 0 < maxAttempts by decide)
  have there : ({ broker with nextId := broker.nextId + 1 }.setJob broker.nextId
      (newTwin poll primaryId host method path)).jobs broker.nextId =
        some (newTwin poll primaryId host method path) := Function.update_self ..
  obtain ⟨linked, live, same⟩ := linkTwin_live broker.nextId primaryId there
  have queued := Sound.pushBack linked (linkTwin_sound inserted there rfl primaryId) live
  rw [show linked.host = host from congrArg JobState.host same,
    show linked.excludeNode = some poll.node from congrArg JobState.excludeNode same] at queued
  exact queued.congr ⟨rfl, rfl, rfl, rfl, rfl⟩

/-- A poll keeps the broker sound. -/
theorem takeJobs_sound (poll : Poll) (hosts : List String) (sound : Sound broker []) :
    Sound (broker.takeJobs poll hosts).1 [] := by
  unfold takeJobs
  refine List.foldlRecOn _ (createTwin poll) (motive := fun current => Sound current []) ?_
    fun _ invariant twin _ => createTwin_sound poll twin invariant
  exact List.foldlRecOn hosts _ (motive := fun dispatch => Sound dispatch.broker [])
    (b := { broker := broker, out := [], newTwins := [] }) sound
    fun dispatch invariant host _ => takeHost_sound poll _ dispatch host invariant

/-! ## Results -/

section Results

variable {Value : Type} [DecidableEq Value] (fromStr : String → Option Value)

/-- Comparing an audit pair touches only the pair, the registry and the verdicts. -/
theorem finishAuditIfReady_sameTable (broker : Broker) (twinId : Nat) :
    SameTable (finishAuditIfReady fromStr broker twinId) broker := by
  unfold finishAuditIfReady
  cases broker.audits twinId with
  | none => exact SameTable.rfl broker
  | some pair =>
      obtain ⟨method, path, primaryNode, twinNode, primary, twin⟩ := pair
      cases primary with
      | none => exact SameTable.rfl broker
      | some a =>
          cases twin with
          | none => exact SameTable.rfl broker
          | some b => exact ⟨rfl, rfl, rfl, rfl, rfl⟩

/-- A body that is filed leaves the table the same. -/
theorem setPairBody_sameTable (broker : Broker) (twinId : Nat) (change : AuditPair → AuditPair) :
    SameTable (broker.setPairBody twinId change) broker := by
  unfold setPairBody
  cases broker.audits twinId with
  | none => exact SameTable.rfl broker
  | some pair => exact ⟨rfl, rfl, rfl, rfl, rfl⟩

/-- Filing a body touches only the audits, the registry and the verdicts. -/
theorem fileBody_sameTable (broker : Broker) (node id : Nat) (job : JobState) (body : AuditBody) :
    SameTable (fileBody fromStr broker node id job body) broker := by
  unfold fileBody
  split
  · exact (finishAuditIfReady_sameTable fromStr _ id).trans (setPairBody_sameTable ..)
  · cases job.twinId with
    | none => exact SameTable.rfl broker
    | some twinId =>
        exact (finishAuditIfReady_sameTable fromStr _ twinId).trans (setPairBody_sameTable ..)

/-- Delivering a body changes the table as removing the job and answering its
channel do. -/
theorem deliver_sameTable (broker : Broker) (node : Nat) (result : JobResult) (job : JobState)
    (body : AuditBody) (nowUnixMs : Nat) :
    SameTable (deliver fromStr broker node result job body nowUnixMs)
      ((broker.removeJob result.id).send job.responder body.response) :=
  (fileBody_sameTable fromStr _ node result.id job body).trans ⟨rfl, rfl, rfl, rfl, rfl⟩

/-- An answer that is accepted keeps the broker sound. -/
theorem deliver_sound (node : Nat) (result : JobResult) (body : AuditBody) (nowUnixMs : Nat)
    (sound : Sound broker []) (live : broker.jobs result.id = some job) :
    Sound (deliver fromStr broker node result job body nowUnixMs) [] := by
  refine Sound.congr ?_ (deliver_sameTable fromStr broker node result job body nowUnixMs)
  refine sound.removeJob live (send_jobs ..) (send_queues ..) (send_nextId ..) (send_fetches ..)
    ?_ (fun channel => send_silent _ _ _ channel)
  intro primary silent
  rw [sound.responder _ _ live, primary] at silent
  exact nomatch (send_resolves (broker.removeJob result.id) result.id body.response).symm.trans
    silent

/-- One more failed attempt below the limit keeps the invariant. -/
theorem failOnce_sound (sound : Sound broker taken) (live : broker.jobs id = some job)
    (within : job.failOnce.attempts < maxAttempts) :
    Sound (broker.setJob id job.failOnce) taken :=
  sound.setJob live rfl rfl
    (fun primary twinId named => sound.linked _ _ twinId live primary named) within
    (fun _ member _ => member) (fun unleased => sound.queued _ job live unleased)

/-- Any answer keeps the broker sound. -/
theorem complete_sound (node : Nat) (result : JobResult) (nowUnixMs : Nat)
    (sound : Sound broker []) : Sound (complete fromStr broker node result nowUnixMs) [] := by
  have completion := complete_completion fromStr broker node result nowUnixMs
  generalize complete fromStr broker node result nowUnixMs = next at completion ⊢
  cases completion with
  | stale refused => exact sound
  | delivered live _ _ => exact deliver_sound fromStr node result _ nowUnixMs sound live
  | keyRejected live _ _ =>
      refine release_sound ?_ false
      exact sound.congr ⟨rfl, rfl, rfl, rfl, rfl⟩
  | @exhausted job live _ _ _ => exact abandon_sound job.failOnce sound live rfl rfl rfl _
  | requeued live _ _ within => exact release_sound (failOnce_sound sound live within) false

/-- Leases that end keep the broker sound. -/
theorem releaseAll_sound (expired : List Nat) (sound : Sound broker []) :
    Sound (broker.releaseAll expired) [] :=
  List.foldlRecOn expired _ (motive := fun current => Sound current []) sound
    fun _ invariant _ _ => release_sound invariant true

/-- Dropping stale twins drops no fetch: a twin answers no channel. -/
theorem dropTwins_sound (stale : List Nat) :
    ∀ broker : Broker, Sound broker [] →
      (∀ id ∈ stale, ∀ job, broker.jobs id = some job → job.isTwin = true) →
        Sound (broker.dropTwins stale) [] := by
  induction stale with
  | nil => exact fun _ sound _ => sound
  | cons id stale ih =>
      intro broker sound twins
      refine ih ((broker.removeJob id).removeAudit id) ?_ fun other member job found => ?_
      · cases live : broker.jobs id with
        | none =>
            refine sound.congr ⟨?_, rfl, rfl, rfl, rfl⟩
            exact Function.update_eq_self_iff.mpr live.symm
        | some job =>
            refine sound.removeJob live rfl rfl rfl rfl (fun primary => ?_) fun _ silent => silent
            have twin := twins id List.mem_cons_self job live
            rw [primary] at twin
            cases twin
      · change Function.update broker.jobs id none other = some job at found
        by_cases same : other = id
        · rw [same, Function.update_self] at found
          cases found
        · rw [Function.update_of_ne same] at found
          exact twins other (List.mem_cons_of_mem _ member) job found

/-- The sweeper keeps the broker sound. -/
theorem sweep_sound (now : Nat) (expired stale : List Nat)
    (twins : Enumerates stale ((broker.releaseAll expired).StaleTwin now))
    (sound : Sound broker []) : Sound (broker.sweep expired stale) [] := by
  refine dropTwins_sound stale _ (releaseAll_sound expired sound) fun id member job found => ?_
  obtain ⟨twin, live, isTwin, _⟩ := (twins.2 id).mp member
  rw [live, Option.some.injEq] at found
  exact found ▸ isTwin

/-- Every call keeps the job table consistent. -/
theorem step_sound {call : Call} {next : Broker} (sound : Sound broker [])
    (step : Step fromStr broker call next) : Sound next [] := by
  obtain ⟨admissible, rfl⟩ := step
  cases call with
  | fetch host method path now => exact fetch_sound sound host method path now
  | takeJobs poll hosts => exact takeJobs_sound poll hosts sound
  | complete node result nowUnixMs => exact complete_sound fromStr node result nowUnixMs sound
  | sweep now expired stale => exact sweep_sound now expired stale admissible.2 sound
  | enrollRuntime id name => exact sound.congr ⟨rfl, rfl, rfl, rfl, rfl⟩
  | touch id now => exact sound.congr ⟨rfl, rfl, rfl, rfl, rfl⟩

/-- The job table is consistent in every reachable state. -/
theorem run_sound {calls : List Call} (run : Run (Step fromStr) new calls broker) :
    Sound broker [] :=
  run.invariant (fun state => Sound state [])
    (fun _ _ _ sound step => step_sound fromStr sound step) sound_new

/-- Live ids are below the counter, so a property of live jobs is enumerated by
checking the ids below it. -/
theorem Sound.enumerates {members : Nat → Prop} {elements : List Nat} (sound : Sound broker taken)
    (live : ∀ id, members id → ∃ job, broker.jobs id = some job) (distinct : elements.Nodup)
    (below : ∀ id ∈ elements, id < broker.nextId)
    (agree : ∀ id < broker.nextId, (id ∈ elements ↔ members id)) :
    Enumerates elements members := by
  refine ⟨distinct, fun id => ⟨fun member => (agree id (below id member)).mp member, ?_⟩⟩
  intro member
  obtain ⟨job, there⟩ := live id member
  exact (agree id (sound.fresh _ _ there)).mpr member

/-- Some iteration order of the sweeper is always admissible. -/
theorem Sound.exists_sweep (sound : Sound broker []) (now : Nat) :
    ∃ expired stale, broker.Admissible (.sweep now expired stale) := by
  have order : ∀ (current : Broker) (members : Nat → Prop) [DecidablePred members],
      Sound current [] → (∀ id, members id → ∃ job, current.jobs id = some job) →
        Enumerates ((List.range current.nextId).filter members) members := by
    intro current members _ invariant live
    refine invariant.enumerates live (List.nodup_range.filter _) (fun id member => ?_)
      fun id below => ?_
    · exact List.mem_range.mp (List.mem_filter.mp member).1
    · simp only [List.mem_filter, List.mem_range, below, true_and, decide_eq_true_eq]
  have expired := order broker (broker.Expired now) sound fun id ⟨job, _, _, live, _⟩ => ⟨job, live⟩
  generalize (List.range broker.nextId).filter (broker.Expired now) = order₁ at expired
  refine ⟨order₁, _, expired, order (broker.releaseAll order₁) _ (releaseAll_sound order₁ sound) ?_⟩
  rintro id ⟨job, live, _⟩
  exact ⟨job, live⟩

/-! ## What answers a fetch -/

/-- The text a fetch is rejected with when its job is given up. -/
def abandoned (why : String) (job : JobState) : FetchResult :=
  .error ("job abandoned: " ++ why ++ " (" ++ job.path ++ ")")

/-- The ways a call may answer the fetch of a job. -/
inductive Resolution (broker : Broker) : Call → Nat → FetchResult → Prop where
  | ok {node nowUnixMs : Nat} {result : JobResult} {job : JobState}
      (live : broker.jobs result.id = some job) (accepted : job.accepts node = true)
      (outcome : result.outcome = .ok) :
      Resolution broker (.complete node result nowUnixMs) result.id
        (.ok (some (result.body.getD "")))
  | notFound {node nowUnixMs : Nat} {result : JobResult} {job : JobState}
      (live : broker.jobs result.id = some job) (accepted : job.accepts node = true)
      (outcome : result.outcome = .notFound) :
      Resolution broker (.complete node result nowUnixMs) result.id (.ok none)
  | failed {node nowUnixMs : Nat} {result : JobResult} {job : JobState}
      (live : broker.jobs result.id = some job) (accepted : job.accepts node = true)
      (outcome : result.outcome = .failed) (exhausted : job.attempts + 1 = maxAttempts) :
      Resolution broker (.complete node result nowUnixMs) result.id
        (abandoned (result.error.getD "failed") job)
  | expired {now id : Nat} {expired stale : List Nat} {job : JobState}
      (live : broker.jobs id = some job) (lapsed : broker.Expired now id)
      (exhausted : job.attempts + 1 = maxAttempts) :
      Resolution broker (.sweep now expired stale) id
        (abandoned "lease expired too many times" job)

/-- Abandoning a job answers its responder and no other channel. -/
theorem abandon_channels (broker : Broker) (live : broker.jobs id = some job) (why : String) :
    (broker.abandon id why).channels =
      (broker.send job.responder (abandoned why job)).channels := by
  have removed : ((broker.removeJob id).send job.responder (abandoned why job)).channels =
      (broker.send job.responder (abandoned why job)).channels := by
    cases job.responder <;> rfl
  unfold abandon
  simp only [live]
  split
  · exact removed
  · cases job.twinId <;> exact removed

/-- A release answers the job's responder exactly when it uses up its attempts. -/
theorem release_channels (broker : Broker) (live : broker.jobs id = some job)
    (countAttempt : Bool) :
    (broker.release id countAttempt).channels =
      if countAttempt = true ∧ maxAttempts ≤ job.attempts + 1 then
        (broker.send job.responder (abandoned "lease expired too many times" job)).channels
      else broker.channels := by
  unfold release
  simp only [live]
  cases countAttempt with
  | false => simp [JobState.unlease]
  | true =>
      simp only [JobState.unlease, true_and, ↓reduceIte]
      split
      · rw [abandon_channels _ (Function.update_self ..)]
        cases job.responder <;> rfl
      · rfl

/-- A channel is touched by a send only if it is the responder's. -/
theorem send_other {responder : Option Nat} {channel : Nat} (other : responder ≠ some channel)
    (result : FetchResult) :
    (broker.send responder result).channels channel = broker.channels channel := by
  cases responder with
  | none => rfl
  | some own => exact Function.update_of_ne (fun same => other (congrArg some same.symm)) ..

/-- A silent channel answered by a send is the responder's. -/
theorem send_answers (broker : Broker) {responder : Option Nat} {channel : Nat}
    {result answer : FetchResult}
    (silent : broker.channels channel = none)
    (answered : (broker.send responder result).channels channel = some answer) :
    responder = some channel ∧ answer = result := by
  by_cases own : responder = some channel
  · subst own
    rw [send_resolves] at answered
    exact ⟨rfl, (Option.some.inj answered).symm⟩
  · rw [send_other own, silent] at answered
    cases answered

/-- A responder names the channel of its own job. -/
theorem Sound.responder_eq (sound : Sound broker taken) (live : broker.jobs id = some job)
    {channel : Nat} (named : job.responder = some channel) : channel = id := by
  rw [sound.responder _ _ live] at named
  split at named
  · cases named
  · exact (Option.some.inj named).symm

/-- No other job answers this channel. -/
theorem Sound.responder_ne (sound : Sound broker taken) (live : broker.jobs id = some job)
    {channel : Nat} (other : channel ≠ id) : job.responder ≠ some channel :=
  fun named => other (sound.responder_eq live named)

/-- A release leaves every other channel alone. -/
theorem release_channel_other (sound : Sound broker taken) {channel : Nat} (other : channel ≠ id)
    (countAttempt : Bool) :
    (broker.release id countAttempt).channels channel = broker.channels channel := by
  cases live : broker.jobs id with
  | none => simp only [release, live]
  | some job =>
      rw [release_channels broker live]
      split
      · exact send_other (sound.responder_ne live other) _
      · rfl

/-- A job that a release leaves live, other than its own, is as it was. -/
theorem release_jobs_other {other : Nat} {current : JobState} (distinct : other ≠ id)
    (countAttempt : Bool) (found : (broker.release id countAttempt).jobs other = some current) :
    broker.jobs other = some current := by
  unfold release at found
  cases live : broker.jobs id with
  | none => simpa only [live] using found
  | some job =>
      simp only [live] at found
      have before : (broker.setJob id (job.unlease countAttempt)).jobs other = some current := by
        split at found
        · exact (drops_abandon _ _ _).jobs _ _ found
        · exact found
      rwa [setJob_jobs, Function.update_of_ne distinct] at before

/-- A lease that ends leaves the channels of other jobs alone. -/
theorem releaseAll_channel_other {channel : Nat} (expired : List Nat) (other : channel ∉ expired) :
    ∀ broker : Broker, Sound broker [] →
      (broker.releaseAll expired).channels channel = broker.channels channel := by
  induction expired with
  | nil => exact fun _ _ => rfl
  | cons id expired ih =>
      intro broker sound
      rw [List.mem_cons, not_or] at other
      exact (ih other.2 _ (release_sound sound true)).trans
        (release_channel_other sound other.1 true)

/-- The sweeper answers only fetches whose job just lost its last attempt. -/
theorem releaseAll_resolves {channel : Nat} {answer : FetchResult} (start : Broker)
    (expired : List Nat) (distinct : expired.Nodup) :
    ∀ broker : Broker, Sound broker [] →
      (∀ id ∈ expired, ∀ job, broker.jobs id = some job → start.jobs id = some job) →
      broker.channels channel = none →
      (broker.releaseAll expired).channels channel = some answer →
      channel ∈ expired ∧ ∃ job, start.jobs channel = some job ∧
        job.attempts + 1 = maxAttempts ∧ answer = abandoned "lease expired too many times" job := by
  induction expired with
  | nil =>
      intro broker _ _ silent answered
      exact nomatch silent.symm.trans answered
  | cons id expired ih =>
      intro broker sound unchanged silent answered
      obtain ⟨absent, distinct⟩ := List.nodup_cons.mp distinct
      have released : Sound (broker.release id true) [] := release_sound sound true
      by_cases own : channel = id
      · subst own
        refine ⟨List.mem_cons_self, ?_⟩
        have now : (broker.release channel true).channels channel = some answer :=
          (releaseAll_channel_other expired absent _ released).symm.trans answered
        cases live : broker.jobs channel with
        | none =>
            simp only [release, live] at now
            exact nomatch silent.symm.trans now
        | some job =>
            rw [release_channels broker live] at now
            have below := sound.attempts _ _ live
            split at now
            · rename_i reached
              exact ⟨job, unchanged _ List.mem_cons_self _ live, by omega,
                (send_answers broker silent now).2⟩
            · exact nomatch silent.symm.trans now
      · refine (ih distinct _ released ?_ ?_ answered).imp_left (List.mem_cons_of_mem _)
        · intro other member job found
          have apart : other ≠ id := fun same => absent (same ▸ member)
          exact unchanged other (List.mem_cons_of_mem _ member) job
            (release_jobs_other apart true found)
        · rw [release_channel_other sound own]
          exact silent

/-- Stale twins have no channel. -/
theorem dropTwins_channels (stale : List Nat) :
    ∀ broker : Broker, (broker.dropTwins stale).channels = broker.channels := by
  induction stale with
  | nil => exact fun _ => rfl
  | cons id stale ih => exact fun broker => ih _

/-- A lease answers nobody. -/
theorem leaseJob_channels (poll : Poll) (auditPossible : Bool) (dispatch : Dispatch) (id : Nat) :
    (leaseJob poll auditPossible dispatch id).broker.channels = dispatch.broker.channels := by
  unfold leaseJob
  cases dispatch.broker.jobs id <;> rfl

/-- The jobs of a host are handed out without an answer. -/
theorem takeHost_channels (poll : Poll) (auditPossible : Bool) (dispatch : Dispatch)
    (host : String) :
    (takeHost poll auditPossible dispatch host).broker.channels = dispatch.broker.channels := by
  unfold takeHost
  cases dispatch.broker.queues host with
  | none => rfl
  | some queue =>
      exact List.foldlRecOn _ _
        (motive := fun current => current.broker.channels = dispatch.broker.channels)
        (b := { dispatch with broker := dispatch.broker.setQueue host _ }) rfl
        fun current same id _ => (leaseJob_channels poll auditPossible current id).trans same

/-- A twin that is queued answers nobody. -/
theorem createTwin_channels (poll : Poll) (broker : Broker)
    (twin : Nat × String × String × String) :
    (createTwin poll broker twin).channels = broker.channels := by
  obtain ⟨primaryId, host, method, path⟩ := twin
  change (linkTwin _ primaryId broker.nextId).channels = broker.channels
  unfold linkTwin
  split <;> rfl

/-- Dispatch answers nobody. -/
theorem takeJobs_channels (poll : Poll) (hosts : List String) :
    (broker.takeJobs poll hosts).1.channels = broker.channels := by
  unfold takeJobs
  refine List.foldlRecOn _ (createTwin poll)
    (motive := fun current => current.channels = broker.channels) ?_
    fun current same twin _ => (createTwin_channels poll current twin).trans same
  exact List.foldlRecOn hosts _
    (motive := fun dispatch => dispatch.broker.channels = broker.channels)
    (b := { broker := broker, out := [], newTwins := [] }) rfl
    fun current same host _ => (takeHost_channels poll _ current host).trans same

/-- An answer on a silent channel is that of the job, or of its being given up. -/
theorem complete_resolves (node : Nat) (result : JobResult) (nowUnixMs : Nat)
    (sound : Sound broker []) {channel : Nat} {answer : FetchResult}
    (silent : broker.channels channel = none)
    (answered : (complete fromStr broker node result nowUnixMs).channels channel = some answer) :
    Resolution broker (.complete node result nowUnixMs) channel answer := by
  have completion := complete_completion fromStr broker node result nowUnixMs
  generalize complete fromStr broker node result nowUnixMs = next at completion answered
  cases completion with
  | stale refused => exact nomatch silent.symm.trans answered
  | @delivered job body live accepted filed =>
      rw [(deliver_sameTable fromStr broker node result job body nowUnixMs).channels] at answered
      obtain ⟨named, rfl⟩ := send_answers (broker.removeJob result.id) silent answered
      cases sound.responder_eq live named
      cases outcome : result.outcome <;>
        simp only [JobResult.auditBody, outcome, Option.some.injEq, reduceCtorEq] at filed
      · subst filed
        exact .ok live accepted outcome
      · subst filed
        exact .notFound live accepted outcome
  | keyRejected live accepted outcome =>
      rw [release_channels (broker.markKeyBad node) live, if_neg (by simp)] at answered
      exact nomatch silent.symm.trans answered
  | @exhausted job live accepted outcome reached =>
      rw [abandon_channels _ (Function.update_self ..)] at answered
      obtain ⟨named, rfl⟩ := send_answers (broker.setJob result.id job.failOnce) silent answered
      cases sound.responder_eq live named
      have below := sound.attempts _ _ live
      have failed : Resolution broker (.complete node result nowUnixMs) result.id
          (abandoned (result.error.getD "failed") job) :=
        .failed live accepted outcome (Nat.le_antisymm below reached)
      exact failed
  | requeued live accepted outcome within =>
      rw [release_channels _ (Function.update_self ..), if_neg (by simp)] at answered
      exact nomatch silent.symm.trans answered

/-- A call answers a silent fetch only in one of the ways of `Resolution`. -/
theorem step_resolves {call : Call} {next : Broker} (sound : Sound broker [])
    (step : Step fromStr broker call next) {channel : Nat} {answer : FetchResult}
    (silent : broker.channels channel = none) (answered : next.channels channel = some answer) :
    Resolution broker call channel answer := by
  obtain ⟨admissible, rfl⟩ := step
  cases call with
  | fetch host method path now => exact nomatch silent.symm.trans answered
  | takeJobs poll hosts =>
      change (broker.takeJobs poll hosts).1.channels channel = some answer at answered
      rw [takeJobs_channels] at answered
      exact nomatch silent.symm.trans answered
  | complete node result nowUnixMs =>
      exact complete_resolves fromStr node result nowUnixMs sound silent answered
  | sweep now expired stale =>
      change ((broker.releaseAll expired).dropTwins stale).channels channel = some answer
        at answered
      rw [dropTwins_channels] at answered
      obtain ⟨member, job, live, exhausted, rfl⟩ := releaseAll_resolves broker expired
        admissible.1.1 broker sound (fun _ _ _ found => found) silent answered
      exact .expired live ((admissible.1.2 channel).mp member) exhausted
  | enrollRuntime id name => exact nomatch silent.symm.trans answered
  | touch id now => exact nomatch silent.symm.trans answered

/-- **No fetch is lost.** In every reachable state each unanswered fetch has its
job with its responder, each unleased job is queued under its own host and
exclusion, no live job has used up its attempts, and the next call answers a
fetch only with an accepted body, an accepted 404, or the error of a job whose
last attempt just failed. -/
theorem broker_never_loses_fetch {calls : List Call}
    (run : Run (Step fromStr) new calls broker) :
    (∀ channel ∈ broker.fetches, broker.channels channel = none →
      ∃ job, broker.jobs channel = some job ∧ job.responder = some channel) ∧
    (∀ id job, broker.jobs id = some job → job.lease = none →
      ∃ queue, broker.queues job.host = some queue ∧ (id, job.excludeNode) ∈ queue) ∧
    (∀ id job, broker.jobs id = some job → job.attempts < maxAttempts) ∧
    (∀ call next, Step fromStr broker call next → ∀ channel answer,
      broker.channels channel = none → next.channels channel = some answer →
        Resolution broker call channel answer) := by
  have sound := run_sound fromStr run
  refine ⟨sound.pending, fun id job live unleased => ?_, sound.attempts, ?_⟩
  · exact (sound.queued id job live unleased).resolve_left List.not_mem_nil
  · exact fun call next step channel answer silent answered =>
      step_resolves fromStr sound step silent answered

end Results

/-- One fetch, leased and still unanswered. -/
theorem broker_never_loses_fetch_leased :
    ∃ broker, Run (Step fun text : String => some text) new
        [.fetch "europe" "match-v5.match" "/x" 0,
          .takeJobs ⟨1, fun _ => 0, 5, 5, fun _ => false⟩ ["europe"]] broker ∧
      (broker.fetches = [1] ∧ broker.channels 1 = none) ∧
      ∃ job, broker.jobs 1 = some job ∧ job.responder = some 1 := by
  obtain ⟨broker, run, facts⟩ : ∃ broker, Run (Step fun text : String => some text) new
      [.fetch "europe" "match-v5.match" "/x" 0,
        .takeJobs ⟨1, fun _ => 0, 5, 5, fun _ => false⟩ ["europe"]] broker ∧
      (broker.fetches = [1] ∧ broker.channels 1 = none) := by
    refine ⟨_, .cons ⟨trivial, rfl⟩ (.cons ⟨enumerates_host (by decide) ?_, rfl⟩ (.nil _)),
      by decide, by decide⟩
    exact fun other distinct => Function.update_of_ne distinct ..
  exact ⟨broker, run, facts, (broker_never_loses_fetch _ run).1 1
    (facts.1 ▸ List.mem_singleton_self 1) facts.2⟩

end LolCrawler.Broker
