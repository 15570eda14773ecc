import LolCrawler.Server.Restarts

/-! # Who is crawled

A cohort member waits in the frontier, or a region visits the player. A pop hands a member
over to the region, and every visit that ends hands the member back. Enrolment and adoption
push the new members under the same lock, but between the adoption and the push stands the raw
sample: if it fails, the new members are left out. So only a crash can strand whoever waits or is
visited, and only a crash or such a fetch leaves a member who does neither.

The other calls of the store succeed here: `store_match` itself, enrolments, pops and the pushes
of a visit that ends.
-/

namespace LolCrawler.Server

open Foundation Segment Store

/-- A region visits the player. -/
def Crawl.Visited (crawl : Crawl) (pid : Nat) : Prop :=
  ∃ platform running, crawl.visits platform = some running ∧ running.visit.pid = pid

def Crawl.Member (crawl : Crawl) (pid : Nat) : Prop :=
  (crawl.store.tables.cohort.get pid).isSome

/-- The player waits or is visited. -/
def Crawl.Attended (crawl : Crawl) (pid : Nat) : Prop :=
  (∃ task, crawl.store.tables.Queued pid task) ∨ crawl.Visited pid

/-- If the player is a cohort member, the player waits or is visited. -/
def Crawl.Attends (crawl : Crawl) (pid : Nat) : Prop := crawl.Member pid → crawl.Attended pid

def Event.isCrash : Event → Bool
  | .crash _ => true
  | _ => false

/-- A fetch that fails after its match was stored. -/
def VisitEvent.abandons : VisitEvent → Bool
  | .store _ _ _ (some _) => true
  | _ => false

def Event.abandons : Event → Bool
  | .visit _ event => event.abandons
  | _ => false

/-! ## New members -/

section New

variable {platforms : List String} {state next : State}

/-- Whoever joins is adopted. -/
theorem mem_sightAll {tsMs : Nat} {growthPaused : Bool} {pid : Nat}
    (players : List (Nat × String)) (found : Ram × Tables)
    (member : pid ∈ (sightAll tsMs growthPaused (players.map Prod.fst) found).1.cohort) :
    pid ∈ found.1.cohort ∨
      pid ∈ (adoptedBy tsMs growthPaused players found).map Prod.fst := by
  induction players generalizing found with
  | nil => exact .inl member
  | cons player players ih =>
      obtain ⟨first, puuid⟩ := player
      rw [adoptedBy, List.map_append, List.mem_append]
      rcases ih _ member with here | later
      · by_cases same : pid = first
        · subst same
          rcases (sight_self tsMs growthPaused found pid).1.mp here with before | adopts
          · exact .inl before
          · rw [if_pos adopts]
            exact .inr (.inl List.mem_cons_self)
        · unfold sight at here
          split at here
          · exact .inl here
          · simp only at here
            split at here
            · exact .inl (Finset.mem_of_mem_insert_of_ne here same)
            · exact .inl here
      · exact .inr (.inr later)

/-- Whoever joins with a match is handed to the caller. -/
theorem mem_committed (given : Match) {pid : Nat}
    (member : pid ∈ (given.committed state).ram.cohort) :
    pid ∈ state.ram.cohort ∨ pid ∈ (given.adopted state).map Prod.fst := by
  have length : (given.pids state.ram).length = given.puuids.length :=
    length_assign state.ram given.puuids
  have inside : pid ∈ (given.inTxn state).ram.cohort := member
  unfold Match.inTxn Match.effects at inside
  unfold Match.adopted Match.real
  rw [← given.entered_cohort]
  cases found : state.tables.progress.get given.key with
  | some progress =>
      simp only [found, Option.isSome_some, Bool.not_true, Bool.and_false, Bool.false_eq_true,
        ↓reduceIte] at inside
      exact .inl inside
  | none =>
      cases remake : isRemake given.record with
      | true =>
          simp only [found, remake, Option.isSome_none, Bool.not_false, Bool.and_self, ↓reduceIte]
            at inside
          exact .inl inside
      | false =>
          simp only [found, remake, Option.isSome_none, Bool.not_false, Bool.false_and,
            Bool.false_eq_true, ↓reduceIte] at inside
          rw [(withMatch_rest _ _ _ _ _).1] at inside
          simp only [Bool.not_false, Option.isNone_none, Bool.and_self, ↓reduceIte]
          apply mem_sightAll _ ((given.entered state).ram, (given.entered state).working)
          rw [List.map_fst_zip (Nat.le_of_eq length)]
          exact inside

/-- The members after a match are those from before, and the adopted. -/
theorem storeMatch_members {codecs : Codecs} {given : Match} {clock : Clock} {pid : Nat}
    {adopted : List (Nat × String)}
    (ends : Ends (storeMatch codecs given.record given.puuids given.tsMs given.growthPaused clock)
      state adopted next) (member : pid ∈ next.ram.cohort) :
    pid ∈ state.ram.cohort ∨ pid ∈ adopted.map Prod.fst := by
  obtain ⟨rfl, aside⟩ := storeMatch_ends codecs ends
  rw [aside.members] at member
  exact mem_committed given member

/-- All of a batch wait after it. -/
theorem pushedAll_queued (platform : String) (dueMs : Nat) {tables : Tables}
    (orderly : tables.Orderly) (items : List (Nat × FrontierTask)) {item : Nat × FrontierTask}
    (inside : item ∈ items) :
    ∃ task, (items.foldl (Tables.pushed platform bucketPriority dueMs) tables).Queued item.1
      task := by
  induction items generalizing tables with
  | nil => cases inside
  | cons first items ih =>
      obtain ⟨orderly', -, held⟩ := orderly.pushed platform dueMs first
      rcases List.mem_cons.mp inside with rfl | later
      · obtain ⟨task, waits⟩ := held
        exact ⟨task, (orderly'.pushedAll platform dueMs items).2.kept _ _ waits⟩
      · exact ih orderly' later

/-- The members after an enrolment are those from before, and the new ones. -/
theorem mem_enrol {new : List Nat} {ram : Ram} {pid : Nat}
    (member : pid ∈ (new.foldl Ram.enrol ram).cohort) : pid ∈ ram.cohort ∨ pid ∈ new := by
  induction new generalizing ram with
  | nil => exact .inl member
  | cons first new ih =>
      rcases ih member with here | later
      · rcases Finset.mem_insert.mp here with rfl | before
        · exact .inr List.mem_cons_self
        · exact .inl before
      · exact .inr (List.mem_cons_of_mem _ later)

/-- What an enrolment leaves: the players have ids, who is new joins, and all are pushed. -/
structure Enrols (platform : String) (entries : List (String × RankSnap)) (nowMs : Nat)
    (state : State) (between : Tables) (next : State) : Prop where
  orderly : between.Orderly
  frontier : between.frontier = state.tables.frontier
  players : between.players =
    addPlayers state.tables.players (state.ram.assign (entries.map Prod.fst)).2.2
  tables : next.tables =
    (((state.ram.assign (entries.map Prod.fst)).2.1.zip (entries.map Prod.fst)).map
      fun player => (player.1, (⟨player.2, 0⟩ : FrontierTask))).foldl
        (Tables.pushed platform bucketPriority nowMs) between
  durable : next.durable = state.durable
  cohort : next.ram.cohort =
    (((state.ram.assign (entries.map Prod.fst)).2.1.filter fun pid =>
      pid ∉ (state.assigned (entries.map Prod.fst)).ram.cohort).foldl Ram.enrol
        (state.assigned (entries.map Prod.fst)).ram).cohort

/-- New members are no new players. -/
theorem enrolAll_players (nowMs source : Nat) (new : List Nat) (tables : Tables) :
    (enrolAll nowMs source new tables).players = tables.players := by
  obtain ⟨_, _, same⟩ := enrolAll_rest nowMs source new tables
  rw [same]

/-- **A page** is enrolled: who is new becomes a member, and is queued. -/
theorem enroll_leaves {platform : String} {entries : List (String × RankSnap)}
    {source nowMs newly : Nat} (sound : state.Sound platforms)
    (ends : Ends (enroll platform entries source nowMs) state newly next) :
    ∃ between, Enrols platform entries nowMs state between next := by
  have assigned := assignPlayerIds_ends (entries.map Prod.fst) state
  have first := (assignPlayerIds_forward sound assigned).1
  obtain ⟨_, batch⟩ := cohortAddBatch_ends (state.ram.assign (entries.map Prod.fst)).2.1 source
    nowMs _
  obtain ⟨second, same⟩ := cohortAddBatch_forward first.sound batch
  obtain ⟨pendingRanks, buffered⟩ := bufferRanks_ends nowMs
    ((state.ram.assign (entries.map Prod.fst)).2.1.zip (entries.map Prod.snd)) _
  obtain ⟨_, pushed⟩ := frontierPushBatch_ends platform bucketPriority nowMs
    (((state.ram.assign (entries.map Prod.fst)).2.1.zip (entries.map Prod.fst)).map
      fun player => (player.1, (⟨player.2, 0⟩ : FrontierTask))) _
  have whole : Ends (enroll platform entries source nowMs) state _ _ :=
    assigned.bind (batch.bind (buffered.bind (pushed.bind rfl)))
  obtain ⟨-, rfl⟩ := ends.unique whole
  exact ⟨_, second.sound.tables.orderly, same, enrolAll_players _ _ _ _, rfl, rfl, rfl⟩

/-- **An enrolment.** Whoever joins waits after it. -/
theorem enroll_members {platform : String} {entries : List (String × RankSnap)}
    {source nowMs newly pid : Nat} (sound : state.Sound platforms)
    (ends : Ends (enroll platform entries source nowMs) state newly next)
    (member : pid ∈ next.ram.cohort) :
    pid ∈ state.ram.cohort ∨ ∃ task, next.tables.Queued pid task := by
  obtain ⟨between, enrols⟩ := enroll_leaves sound ends
  have same :=
    (assignPlayerIds_forward sound (assignPlayerIds_ends (entries.map Prod.fst) state)).2.2
  rw [enrols.cohort] at member
  rcases mem_enrol member with before | new
  · rw [same] at before
    exact .inl before
  · have listed := List.mem_of_mem_filter new
    have length : (state.ram.assign (entries.map Prod.fst)).2.1.length =
        (entries.map Prod.fst).length := length_assign _ _
    rw [← List.map_fst_zip (Nat.le_of_eq length)] at listed
    obtain ⟨player, inside, rfl⟩ := List.mem_map.mp listed
    rw [enrols.tables]
    exact .inr (pushedAll_queued platform nowMs enrols.orderly _
      (List.mem_map.mpr ⟨player, inside, rfl⟩))

/-- All players that a match adopts wait after it. -/
theorem pushAdopted_queued {platform : String} {nowMs : Nat} {adopted : List (Nat × String)}
    (sound : state.Sound platforms)
    (ends : Ends (pushAdopted platform nowMs adopted) state () next) {pid : Nat}
    (inside : pid ∈ adopted.map Prod.fst) : ∃ task, next.tables.Queued pid task := by
  induction adopted generalizing state with
  | nil => cases inside
  | cons player adopted ih =>
      obtain ⟨first, puuid⟩ := player
      obtain ⟨middle, pushed, only, orderly, pushes, held⟩ := frontierPush_pushes platform nowMs
        sound.tables.orderly first ⟨puuid, 0⟩
      have forward := sound.push only orderly pushes fun other task new deep => by
        rw [new.2] at deep
        cases deep
      have rest : Ends (pushAdopted platform nowMs adopted) middle () next := by
        have whole := ends
        unfold Ends pushAdopted at whole
        rw [Prog.bind_of_ok pushed] at whole
        exact whole
      rcases List.mem_cons.mp inside with rfl | later
      · obtain ⟨task, waits⟩ := held
        exact ⟨task, (pushAdopted_forward forward.sound rest).2.kept _ _ waits⟩
      · exact ih forward.sound rest later

/-- A commit makes the players and the members durable. -/
theorem commit_members {codecs : Codecs} {nowMs : Nat} {order : List String}
    (ends : Ends (commit codecs nowMs order) state () next) :
    (next.tables.players = state.tables.players ∧ next.tables.cohort = state.tables.cohort) ∧
      next.durable.players = state.tables.players ∧ next.durable.cohort = state.tables.cohort := by
  have meets : Meets (commit codecs nowMs order) state
      (fun _ after => (after.tables.players = state.tables.players ∧
          after.tables.cohort = state.tables.cohort) ∧
        after.durable.players = state.tables.players ∧ after.durable.cohort = state.tables.cohort)
      fun _ _ => True := by
    unfold commit
    refine Meets.bind ((durableCheckpoint_meets nowMs state).mono (fun _ _ here => here)
      fun _ _ _ => trivial) fun _ between here => ?_
    subst here
    refine Meets.bind ((flushWriters_archiving codecs order (state.checkpointed nowMs)).mono
      (fun _ _ here => here) fun _ _ _ => trivial) fun _ flushed archiving => ?_
    have tables : flushed.tables.players = state.tables.players ∧
        flushed.tables.cohort = state.tables.cohort := by
      obtain ⟨_, _, tables⟩ := archiving.tables
      rw [tables]
      exact ⟨rfl, rfl⟩
    have durable : flushed.durable.players = state.tables.players ∧
        flushed.durable.cohort = state.tables.cohort := by
      rcases archiving.durable with same | ⟨_, _, same⟩
      · rw [same]
        exact ⟨rfl, rfl⟩
      · rw [same]
        exact ⟨rfl, rfl⟩
    refine (commitBitmaps_meets flushed).mono (fun _ after same => ?_) fun _ _ _ => trivial
    rw [same]
    split
    · exact ⟨tables, tables⟩
    · exact ⟨tables, durable⟩
  exact ends.meets meets

end New

/-! ## Steps -/

/-- What a step of a visit does to the store: it changes the memory elsewhere, pushes the player,
or stores a match. -/
inductive VisitMove (codecs : Codecs) (event : VisitEvent) (now : Visiting) (after : State) :
    Prop where
  | quiet (seen : Table String Bitmap) (dirty : Bool) (ranks : List (Nat × Nat × RankSnap))
      (same : after =
        { now.store with
          ram :=
            { now.store.ram with seen := seen, dirtyBitmaps := dirty, pendingRanks := ranks } }) :
      VisitMove codecs event now after
  | pushed (dueMs : Nat) (given : FrontierTask)
      (ends : Ends (frontierPush now.visit.platform bucketPriority dueMs now.visit.pid given)
        now.store () after) : VisitMove codecs event now after
  | stored (matchId : String) (given : Match) (clock : Clock) (failed : Option Nat)
      (adopted : List (Nat × String)) (between : State)
      (own : event = .store matchId given clock failed)
      (stored : Ends
        (storeMatch codecs given.record given.puuids given.tsMs given.growthPaused clock)
        now.store adopted between)
      (pushed : Ends (pushAdopted given.record.platform clock.nowMs (queuedOf failed adopted))
        between () after) :
      VisitMove codecs event now after

section Steps

variable {codecs : Codecs} {platforms : List String} {crawl next : Crawl} {event : Event}
  {pid : Nat}

/-- The regions go on, no task goes, and whoever joins waits. -/
theorem Crawl.Attends.kept (attends : crawl.Attends pid) (visits : next.visits = crawl.visits)
    (waits : (∃ task, crawl.store.tables.Queued pid task) →
      ∃ task, next.store.tables.Queued pid task)
    (members : next.Member pid → crawl.Member pid ∨ ∃ task, next.store.tables.Queued pid task) :
    next.Attends pid := by
  intro member
  rcases members member with before | queued
  · rcases attends before with queued | visited
    · exact .inl (waits queued)
    · obtain ⟨platform, running, here, own⟩ := visited
      exact .inr ⟨platform, running, visits ▸ here, own⟩
  · exact .inl queued

/-- As `kept`, where one region goes on to something else. -/
theorem Crawl.Attends.setVisit {store : State} {platform : String} {running : Option Running}
    (attends : crawl.Attends pid)
    (waits : ∀ task, crawl.store.tables.Queued pid task →
      (∃ task, store.tables.Queued pid task) ∨ ∃ after, running = some after ∧
        after.visit.pid = pid)
    (members : (store.tables.cohort.get pid).isSome →
      crawl.Member pid ∨ ∃ task, store.tables.Queued pid task)
    (handed : ∀ before, crawl.visits platform = some before → before.visit.pid = pid →
      (store.tables.cohort.get pid).isSome →
        (∃ task, store.tables.Queued pid task) ∨ ∃ after, running = some after ∧
          after.visit.pid = pid) :
    (Crawl.setVisit { crawl with store := store } platform running).Attends pid := by
  intro member
  have there : ∀ after, running = some after → after.visit.pid = pid →
      (Crawl.setVisit { crawl with store := store } platform running).Visited pid := by
    intro after same own
    refine ⟨platform, after, ?_, own⟩
    rw [setVisit_visits, if_pos rfl, same]
  rcases members member with before | queued
  · rcases attends before with ⟨task, queued⟩ | ⟨other, held, here, own⟩
    · rcases waits task queued with queued | ⟨after, same, own⟩
      · exact .inl queued
      · exact .inr (there after same own)
    · by_cases same : other = platform
      · subst same
        rcases handed held here own member with queued | ⟨after, same, own⟩
        · exact .inl queued
        · exact .inr (there after same own)
      · refine .inr ⟨other, held, ?_, own⟩
        rw [setVisit_visits, if_neg same]
        exact here
  · exact .inl queued

/-- The tables have the same members and tasks, and the regions go on. -/
theorem Crawl.Attends.same (attends : crawl.Attends pid) (visits : next.visits = crawl.visits)
    (frontier : next.store.tables.frontier = crawl.store.tables.frontier)
    (cohort : next.store.tables.cohort = crawl.store.tables.cohort) : next.Attends pid :=
  attends.kept visits
    (fun ⟨task, queued⟩ => ⟨task, (queued_congr frontier).mpr queued⟩)
    fun member => .inl (by
      rw [Crawl.Member, cohort] at member
      exact member)

/-- What a step of a visit does to the store. -/
theorem visitStep_moves {stopped : Bool} {now after : Visiting} {event : VisitEvent}
    (step : VisitStep codecs stopped now event after) :
    VisitMove codecs event now after.store := by
  obtain ⟨store, platform, own, task, phase⟩ := now
  cases event with
  | page page =>
      cases phase with
      | awaiting ids start =>
          cases step
          exact .quiet _ _ _ rfl
      | _ => exact step.elim
  | pageFailed nowMs =>
      cases phase with
      | awaiting ids start => exact .pushed _ _ step.1
      | _ => exact step.elim
  | nextPage =>
      cases phase with
      | listing ids pageLen start =>
          obtain ⟨-, rfl⟩ := step
          exact .quiet _ _ _ rfl
      | _ => exact step.elim
  | list rank =>
      cases phase with
      | listing ids pageLen start =>
          obtain ⟨-, buffered, -⟩ := step
          obtain ⟨pendingRanks, ends⟩ := bufferRank_ends own rank store
          exact .quiet _ _ _ (buffered.unique ends).2
      | _ => exact step.elim
  | select =>
      cases phase with
      | listed ids =>
          cases step
          exact .quiet _ _ _ rfl
      | _ => exact step.elim
  | skip matchId =>
      cases phase with
      | fetching ids left =>
          obtain ⟨-, -, rfl⟩ := step
          exact .quiet _ _ _ rfl
      | _ => exact step.elim
  | fetchFailed matchId =>
      cases phase with
      | fetching ids left =>
          obtain ⟨-, rfl⟩ := step
          exact .quiet _ _ _ rfl
      | _ => exact step.elim
  | mark matchId =>
      cases phase with
      | fetching ids left =>
          obtain ⟨-, other, num, -, marked, -⟩ := step
          exact .quiet _ _ _ (marked.unique (markSeen_ends .markSeen other num store)).2
      | _ => exact step.elim
  | store matchId given clock failed =>
      cases phase with
      | fetching ids left =>
          obtain ⟨-, -, -, -, -, ⟨adopted, between, stored, pushed⟩, -⟩ := step
          exact .stored matchId given clock failed adopted between rfl stored pushed
      | _ => exact step.elim
  | finish nowMs dueMs =>
      cases phase with
      | fetching ids left =>
          cases left with
          | nil =>
              obtain ⟨ends, -⟩ := step
              unfold reschedule at ends
              split at ends
              · exact .pushed _ _ ends
              · exact .pushed _ _ ends
          | cons => exact step.elim
      | _ => exact step.elim

/-- A change of the frontier leaves the cohort alone. -/
theorem onlyFrontier_cohort {before after : State} (only : OnlyFrontier before after) :
    after.tables.cohort = before.tables.cohort := by
  obtain ⟨_, _, _, _, same⟩ := only
  rw [same]

/-- A member after a change of the frontier was one before. -/
theorem onlyFrontier_member {before after : State} (only : OnlyFrontier before after) {pid : Nat}
    (member : (after.tables.cohort.get pid).isSome) : (before.tables.cohort.get pid).isSome := by
  rw [← onlyFrontier_cohort only]
  exact member

/-- Whoever joins in a step of a visit waits after it, unless the fetch fails in it. -/
theorem visitStep_members {stopped : Bool} {now after : Visiting} {event : VisitEvent}
    (sound : now.store.Sound platforms) (step : VisitStep codecs stopped now event after)
    (whole : event.abandons = false) {pid : Nat} (joined : pid ∈ after.store.ram.cohort) :
    pid ∈ now.store.ram.cohort ∨ ∃ task, after.store.tables.Queued pid task := by
  cases visitStep_moves step with
  | quiet seen dirty ranks same =>
      rw [same] at joined
      exact .inl joined
  | pushed dueMs given ends =>
      rw [(frontierPush_only ends).ram] at joined
      exact .inl joined
  | stored matchId given clock failed adopted between own stored pushed =>
      obtain rfl : failed = none := by
        cases failed with
        | none => rfl
        | some queued =>
            rw [own] at whole
            cases whole
      have first := (storeMatch_forward codecs sound stored).1
      rw [(pushAdopted_only pushed).ram] at joined
      rcases storeMatch_members stored joined with before | new
      · exact .inl before
      · exact .inr (pushAdopted_queued first.sound pushed new)

/-- **Each step of the server** but a crash attends to the player, if it abandons no fetch or the
player is a member already. -/
theorem CrawlStep.attends (step : CrawlStep codecs platforms crawl event next)
    (calm : event.isCrash = false) (sound : crawl.Sound platforms)
    (known : event.abandons = false ∨ crawl.Member pid) (attends : crawl.Attends pid) :
    next.Attends pid := by
  cases event with
  | openStore =>
      obtain ⟨mode, store, ends, rfl⟩ := step
      obtain ⟨fallen, durable⟩ := sound.down mode
      have same := (openStore_sound durable fallen ends).2.1
      exact attends.same rfl (by rw [same]) (by rw [same])
  | reconcile nowMs =>
      obtain ⟨mode, count, store, ends, rfl⟩ := step
      have held := sound.up (by rw [mode]; nofun)
      obtain ⟨only, -, pushes⟩ := frontierReconcile_pushes held.tables.orderly ends
      exact attends.kept rfl (fun ⟨task, queued⟩ => ⟨task, pushes.kept _ _ queued⟩)
        fun member => .inl (onlyFrontier_member only member)
  | backfill nowMs =>
      obtain ⟨mode, count, store, ends, rfl⟩ := step
      have held := sound.up (by rw [mode]; nofun)
      obtain ⟨only, -, waits, -⟩ := frontierBackfillReset_queued held.tables.orderly ends
      exact attends.kept rfl (waits pid) fun member => .inl (onlyFrontier_member only member)
  | spawn =>
      obtain ⟨-, rfl⟩ := step
      exact attends
  | popDue platform nowMs =>
      obtain ⟨mode, -, free, result, store, ends, rfl⟩ := step
      have held := sound.up (by rw [mode]; nofun)
      obtain ⟨only, -, -, -, left⟩ := frontierPopDue_pops held.tables.orderly ends
      refine attends.setVisit (fun task queued => ?_)
        (fun member => .inl (onlyFrontier_member only member)) fun before here => ?_
      · rcases left pid task queued with stays | ⟨bucket, popped⟩
        · exact .inl ⟨task, stays⟩
        · exact .inr ⟨Running.started platform pid task, by rw [popped]; rfl, rfl⟩
      · rw [free] at here
        cases here
  | check platform =>
      obtain ⟨running, here, -, rfl⟩ := step
      have held := sound.up (by rw [sound.serving here]; nofun)
      refine attends.setVisit (fun task queued => .inl ⟨task, queued⟩) .inl
        fun before there own member => .inr ?_
      obtain rfl : running = before := Option.some.inj (here.symm.trans there)
      rw [← own] at member
      rw [if_pos ((held.cohort _).mpr member)]
      exact ⟨_, rfl, own⟩
  | visit platform event =>
      obtain ⟨running, here, checked, store, visit, step, rfl⟩ := step
      have held := sound.up (by rw [sound.serving here]; nofun)
      have own := (sound.regions platform running here).2.2 (.inl checked)
      obtain ⟨forward, pushes, moved, ended⟩ := visitStep_forward held own step
      refine attends.setVisit (fun task queued => .inl ⟨task, pushes.kept _ _ queued⟩)
        (fun member => ?_) fun before there same member => ?_
      · rcases known with whole | before
        · exact (visitStep_members held step whole ((forward.sound.cohort pid).mpr member)).imp_left
            (held.cohort pid).mp
        · exact .inl before
      · obtain rfl : running = before := Option.some.inj (here.symm.trans there)
        unfold Running.next
        by_cases done : visit.phase = .done
        · exact .inl (same ▸ ended done)
        · rw [if_neg done]
          refine .inr ⟨_, rfl, ?_⟩
          rw [show visit = _ from moved]
          exact same
  | enroll platform entries source nowMs =>
      obtain ⟨mode, -, -, newly, store, ends, rfl⟩ := step
      have held := sound.up (by rw [mode]; nofun)
      obtain ⟨forward, pushes⟩ := enroll_forward held ends
      refine attends.kept rfl (fun ⟨task, queued⟩ => ⟨task, pushes.kept _ _ queued⟩)
        fun member => ?_
      exact (enroll_members held ends ((forward.sound.cohort pid).mpr member)).imp_left
        (held.cohort pid).mp
  | snapshot pid tsMs snap =>
      obtain ⟨-, store, ends, rfl⟩ := step
      cases ends
      exact attends
  | commit nowMs order =>
      obtain ⟨mode, store, ends, rfl⟩ := step
      have held := sound.up (by rw [mode]; nofun)
      exact attends.same rfl (commit_forward codecs held ends).2.1 (commit_members ends).1.2
  | persist =>
      obtain ⟨-, rfl⟩ := step
      exact attends
  | stop =>
      obtain ⟨-, rfl⟩ := step
      exact attends
  | exit nowMs order =>
      obtain ⟨-, -, idle, store, ends, ended⟩ := step
      refine attends.same ?_ ?_ ?_
      · rw [ended.visits]
        exact funext fun platform => (idle platform).symm
      · rw [ended.tables]
        exact (commit_durable codecs ends).1
      · rw [ended.tables]
        exact (commit_members ends).2.2
  | crash during => cases calm

/-- **One step of the server** takes no member, unless it is a crash. -/
theorem CrawlStep.member (step : CrawlStep codecs platforms crawl event next)
    (calm : event.isCrash = false) (sound : crawl.Sound platforms) (member : crawl.Member pid) :
    next.Member pid := by
  have same : ∀ {after : Crawl}, after.store.tables.cohort = crawl.store.tables.cohort →
      after.Member pid := by
    intro after cohort
    rw [Crawl.Member, cohort]
    exact member
  have grown : ∀ {after : Crawl}, Forward platforms crawl.store after.store →
      crawl.mode ≠ .down → after.Member pid := fun forward up =>
    (forward.sound.cohort pid).mp (forward.members pid (((sound.up up).cohort pid).mpr member))
  cases event with
  | openStore =>
      obtain ⟨mode, store, ends, rfl⟩ := step
      obtain ⟨fallen, durable⟩ := sound.down mode
      have kept := (openStore_sound durable fallen ends).2.1
      exact same (by rw [kept])
  | reconcile nowMs =>
      obtain ⟨mode, count, store, ends, rfl⟩ := step
      have held := sound.up (by rw [mode]; nofun)
      obtain ⟨only, -, -⟩ := frontierReconcile_pushes held.tables.orderly ends
      exact same (onlyFrontier_cohort only)
  | backfill nowMs =>
      obtain ⟨mode, count, store, ends, rfl⟩ := step
      have held := sound.up (by rw [mode]; nofun)
      obtain ⟨only, -, -, -⟩ := frontierBackfillReset_queued held.tables.orderly ends
      exact same (onlyFrontier_cohort only)
  | spawn =>
      obtain ⟨-, rfl⟩ := step
      exact member
  | popDue platform nowMs =>
      obtain ⟨mode, -, free, result, store, ends, rfl⟩ := step
      have held := sound.up (by rw [mode]; nofun)
      obtain ⟨only, -, -, -, -⟩ := frontierPopDue_pops held.tables.orderly ends
      exact same (onlyFrontier_cohort only)
  | check platform =>
      obtain ⟨running, here, -, rfl⟩ := step
      exact member
  | visit platform event =>
      obtain ⟨running, here, checked, store, visit, step, rfl⟩ := step
      have up : crawl.mode ≠ .down := by rw [sound.serving here]; nofun
      have own := (sound.regions platform running here).2.2 (.inl checked)
      exact grown (visitStep_forward (sound.up up) own step).1 up
  | enroll platform entries source nowMs =>
      obtain ⟨mode, -, -, newly, store, ends, rfl⟩ := step
      have up : crawl.mode ≠ .down := by rw [mode]; nofun
      exact grown (enroll_forward (sound.up up) ends).1 up
  | snapshot pid tsMs snap =>
      obtain ⟨-, store, ends, rfl⟩ := step
      cases ends
      exact member
  | commit nowMs order =>
      obtain ⟨mode, store, ends, rfl⟩ := step
      exact same (commit_members ends).1.2
  | persist =>
      obtain ⟨-, rfl⟩ := step
      exact member
  | stop =>
      obtain ⟨-, rfl⟩ := step
      exact member
  | exit nowMs order =>
      obtain ⟨-, -, -, store, ends, ended⟩ := step
      exact same (by rw [ended.tables]; exact (commit_members ends).2.2)
  | crash during => cases calm

end Steps

/-! ## Runs -/

/-- **Only a crash strands a member.** From any state that a run reaches, crashes before it
included, in every run without a crash, over stops and restarts: a member who waits or is visited
stays so, whatever fetches fail. And a player for whom it holds that a member waits or is visited
stays so, where no fetch fails after its match was stored. The calls of the store succeed, but for
the raw sample and the pushes of a fetch. -/
theorem only_crashes_strand {codecs : Codecs} {platforms : List String} {crawl next : Crawl}
    {before events : List Event} (reached : Run (CrawlStep codecs platforms) .fresh before crawl)
    (run : Run (CrawlStep codecs platforms) crawl events next)
    (calm : ∀ event ∈ events, event.isCrash = false) (pid : Nat) :
    (crawl.Member pid → crawl.Attended pid → next.Member pid ∧ next.Attended pid) ∧
      ((∀ event ∈ events, event.abandons = false) → crawl.Attends pid → next.Attends pid) := by
  have sound := Crawl.Sound.reached reached
  clear reached
  induction run with
  | nil state => exact ⟨And.intro, fun _ attends => attends⟩
  | cons step run ih =>
      have here := calm _ List.mem_cons_self
      obtain ⟨stays, whole⟩ := ih (fun event later => calm event (List.mem_cons_of_mem _ later))
        (step.sound sound)
      constructor
      · intro member attended
        have member' := step.member here sound member
        exact stays member' (step.attends here sound (.inr member) (fun _ => attended) member')
      · intro spared attends
        exact whole (fun event later => spared event (List.mem_cons_of_mem _ later))
          (step.attends here sound (.inl (spared _ List.mem_cons_self)) attends)

/-! ## A fetch that fails late -/

/-- The match of the deep visit's list. -/
def listedGame : Match :=
  ⟨{ shortRecord with platform := "EUW1", gameId := 7, queueId := 420, durationS := 1800 },
    ["a", "b"], 0, false⟩

def visitClock : Clock := ⟨8, "2025-01-01", "2025-01-01"⟩

/-- The store of the visit when the match is stored. -/
def archivedStore : State :=
  (storeMatch shortCodecs listedGame.record listedGame.puuids 0 false visitClock
    ⟨visitedStore, .never⟩).2.state

/-- After a crash the store is opened again, `backfill` marks a member who is then popped, and the
fetch of the first match fails at its raw sample. -/
theorem only_crashes_strand_popped :
    (deepCrawl archivedStore true (.fetching ["EUW1_7"] []) []).Member 1 ∧
      (deepCrawl archivedStore true (.fetching ["EUW1_7"] []) []).Attended 1 := by
  obtain ⟨past, reached⟩ := reopened_reached
  have visits : Run (CrawlStep shortCodecs ["EUW1"]) ⟨markedStore, .serving, false, fun _ => none⟩
      deepEvents (deepCrawl visitedStore true (.fetching ["EUW1_7"] ["EUW1_7"]) []) :=
    marked_fetches.map Prod.fst fun _ _ _ step => step.1.1
  have fails : CrawlStep shortCodecs ["EUW1"]
      (deepCrawl visitedStore true (.fetching ["EUW1_7"] ["EUW1_7"]) [])
      (.visit "EUW1" (.store "EUW1_7" listedGame visitClock (some 0)))
      (deepCrawl archivedStore true (.fetching ["EUW1_7"] []) []) := by
    refine deepCrawl_step nofun ⟨List.mem_singleton_self _, by decide +kernel, rfl, rfl, rfl,
      ⟨[], archivedStore, .of_eq (by decide +kernel) (by decide +kernel), rfl⟩, rfl⟩
  have run := Run.cons reopened_marked (visits.append (.cons fails (.nil _)))
  have member : (reopenedStore.tables.cohort.get 1).isSome := by decide +kernel
  exact (only_crashes_strand reached run (by decide) 1).1 member (.inl ⟨_, reopened_queued⟩)

end LolCrawler.Server
