import LolCrawler.Server.Visit
import LolCrawler.Store.Forward

/-! # The server and its regions

The regions share one store. A region pops a task, checks that the player is in the
cohort, and visits the player; between visits it enrols players from the ladders and
commits. At startup the store is opened and the frontier reconciled, and `backfill` may
reset the tasks. The server stops when every region has ended its visit, or crashes
anywhere, also inside a call of the store; then the database falls back to what is
durable, and the memory is lost.

The timing of commits and of the seeds is left open. So are the segment files after a
crash, which no task depends on. The calls of the store succeed or are cut by a crash; only the
raw sample and the pushes after a match may fail (`queuedOf`).
-/

namespace LolCrawler.Server

open Foundation Segment Store

/-- Where the server is in its life. -/
inductive Mode where
  | down
  | opened
  /-- The frontier is reconciled. -/
  | ready
  | serving
deriving DecidableEq

/-- The task of a region. -/
structure Running where
  visit : Visit
  /-- The player was looked up in the cohort. -/
  checked : Bool
  /-- A history: the new matches of the list that the visit gave up. -/
  lost : List String

/-- The store, and what the regions are at. -/
structure Crawl where
  store : State
  mode : Mode
  stopped : Bool
  visits : String → Option Running

/-- An empty data directory. -/
def Crawl.fresh : Crawl := ⟨.empty, .down, false, fun _ => none⟩

/-- The ranks of enrolled players. -/
def bufferRanks (nowMs : Nat) : List (Nat × RankSnap) → Act Unit
  | [] => pure ()
  | (pid, snap) :: ranks => do
      addRankSnapshot pid nowMs snap
      bufferRanks nowMs ranks

def enroll (platform : String) (entries : List (String × RankSnap)) (source nowMs : Nat) :
    Act Nat := do
  let pids ← assignPlayerIds (entries.map Prod.fst)
  let newly ← cohortAddBatch pids source nowMs
  bufferRanks nowMs (pids.zip (entries.map Prod.snd))
  frontierPushBatch platform bucketPriority nowMs
    ((pids.zip (entries.map Prod.fst)).map fun (pid, puuid) => (pid, ⟨puuid, 0⟩))
  pure newly.length

/-- A match and the players it adopts, under one lock. -/
def storeVisited (codecs : Codecs) (given : Match) (clock : Clock) : Act Unit := do
  let adopted ← storeMatch codecs given.record given.puuids given.tsMs given.growthPaused clock
  pushAdopted given.record.platform clock.nowMs adopted

/-! ## Calls that a crash can cut short -/

inductive Call where
  | openStore
  | reconcile (nowMs : Nat)
  | backfill (nowMs : Nat)
  | popDue (platform : String) (nowMs : Nat)
  | push (platform : String) (dueMs pid : Nat) (task : FrontierTask)
  | enroll (platform : String) (entries : List (String × RankSnap)) (source nowMs : Nat)
  | storeVisited (given : Match) (clock : Clock)
  | commit (nowMs : Nat) (order : List String)

/-- When the server makes the call. -/
def Call.mode : Call → Mode
  | .openStore => .down
  | .reconcile _ => .opened
  | .backfill _ => .ready
  | .popDue .. | .push .. | .enroll .. | .storeVisited .. | .commit .. => .serving

variable (codecs : Codecs) (platforms : List String)

def Call.run : Call → Act Unit
  | .openStore => Store.openStore platforms
  | .reconcile nowMs => do
      let _ ← frontierReconcile platforms nowMs
      pure ()
  | .backfill nowMs => do
      let _ ← frontierBackfillReset nowMs
      pure ()
  | .popDue platform nowMs => do
      let _ ← frontierPopDue platform nowMs
      pure ()
  | .push platform dueMs pid task => frontierPush platform bucketPriority dueMs pid task
  | .enroll platform entries source nowMs => do
      let _ ← Server.enroll platform entries source nowMs
      pure ()
  | .storeVisited given clock => Server.storeVisited codecs given clock
  | .commit nowMs order => Store.commit codecs nowMs order

/-- The store when a crash comes: between two calls, or inside one. -/
def Crawl.Cut (crawl : Crawl) (during : Option Call) (after : State) : Prop :=
  match during with
  | none => after = crawl.store
  | some call => call.mode = crawl.mode ∧ ∃ before cut,
      call.run codecs platforms ⟨crawl.store, .crash before⟩ = (.error .crashed, ⟨after, cut⟩)

/-! ## Steps -/

inductive Event where
  | openStore
  | reconcile (nowMs : Nat)
  | backfill (nowMs : Nat)
  | spawn
  | popDue (platform : String) (nowMs : Nat)
  | check (platform : String)
  | visit (platform : String) (event : VisitEvent)
  | enroll (platform : String) (entries : List (String × RankSnap)) (source nowMs : Nat)
  | snapshot (pid tsMs : Nat) (snap : RankSnap)
  | commit (nowMs : Nat) (order : List String)
  /-- A durable transaction on other tables: `node_add`. -/
  | persist
  | stop
  /-- The last commit, when all regions have ended. -/
  | exit (nowMs : Nat) (order : List String)
  | crash (during : Option Call)

/-- What is there when the process has ended. -/
structure Ended (store : State) (next : Crawl) : Prop where
  tables : next.store.tables = store.durable
  durable : next.store.durable = store.durable
  ram : next.store.ram = .empty
  mode : next.mode = .down
  stopped : next.stopped = false
  visits : next.visits = fun _ => none

/-- The task that a region goes on with. -/
def Running.started (platform : String) (pid : Nat) (task : FrontierTask) : Running :=
  ⟨⟨platform, pid, task, .awaiting [] 0⟩, false, []⟩

/-- The matches that are given up after this step. -/
def Running.givenUp (running : Running) : VisitEvent → List String
  | .skip matchId | .fetchFailed matchId => matchId :: running.lost
  | _ => running.lost

/-- What a region has after a step of its visit. -/
def Running.next (running : Running) (event : VisitEvent) (visit : Visit) : Option Running :=
  if visit.phase = .done then none else some ⟨visit, running.checked, running.givenUp event⟩

def Crawl.setVisit (crawl : Crawl) (platform : String) (running : Option Running) : Crawl :=
  { crawl with visits := Function.update crawl.visits platform running }

/-- A visit is that of its platform. -/
theorem setVisit_visits (crawl : Crawl) (platform other : String) (running : Option Running) :
    (crawl.setVisit platform running).visits other =
      if other = platform then running else crawl.visits other :=
  Function.update_apply _ _ _ _

/-- One step of the server. -/
def CrawlStep (crawl : Crawl) : Event → Crawl → Prop
  | .openStore, next => crawl.mode = .down ∧ ∃ store,
      Ends (openStore platforms) crawl.store () store ∧
        next = { crawl with store := store, mode := .opened }
  | .reconcile nowMs, next => crawl.mode = .opened ∧ ∃ count store,
      Ends (frontierReconcile platforms nowMs) crawl.store count store ∧
        next = { crawl with store := store, mode := .ready }
  | .backfill nowMs, next => crawl.mode = .ready ∧ ∃ count store,
      Ends (frontierBackfillReset nowMs) crawl.store count store ∧
        next = { crawl with store := store, mode := .serving }
  | .spawn, next => crawl.mode = .ready ∧ next = { crawl with mode := .serving }
  | .popDue platform nowMs, next =>
      crawl.mode = .serving ∧ platform ∈ platforms ∧ crawl.visits platform = none ∧
        ∃ result store, Ends (frontierPopDue platform nowMs) crawl.store result store ∧
          next = Crawl.setVisit { crawl with store := store } platform
            (result.map fun (_, pid, task) => Running.started platform pid task)
  | .check platform, next => ∃ running, crawl.visits platform = some running ∧
      running.checked = false ∧
        next = crawl.setVisit platform
          (if running.visit.pid ∈ crawl.store.ram.cohort then some { running with checked := true }
          else none)
  | .visit platform event, next => ∃ running, crawl.visits platform = some running ∧
      running.checked = true ∧ ∃ store visit,
        VisitStep codecs crawl.stopped ⟨crawl.store, running.visit⟩ event ⟨store, visit⟩ ∧
          next = Crawl.setVisit { crawl with store := store } platform (running.next event visit)
  | .enroll platform entries source nowMs, next =>
      crawl.mode = .serving ∧ platform ∈ platforms ∧ crawl.visits platform = none ∧
        ∃ newly store, Ends (enroll platform entries source nowMs) crawl.store newly store ∧
          next = { crawl with store := store }
  | .snapshot pid tsMs snap, next => crawl.mode = .serving ∧ ∃ store,
      Ends (addRankSnapshot pid tsMs snap) crawl.store () store ∧
        next = { crawl with store := store }
  | .commit nowMs order, next => crawl.mode = .serving ∧ ∃ store,
      Ends (commit codecs nowMs order) crawl.store () store ∧ next = { crawl with store := store }
  | .persist, next => crawl.mode = .serving ∧
      next = { crawl with store := { crawl.store with durable := crawl.store.tables } }
  | .stop, next => crawl.mode = .serving ∧ next = { crawl with stopped := true }
  | .exit nowMs order, next =>
      crawl.mode = .serving ∧ crawl.stopped = true ∧ (∀ platform, crawl.visits platform = none) ∧
        ∃ store, Ends (commit codecs nowMs order) crawl.store () store ∧ Ended store next
  | .crash during, next => ∃ store, crawl.Cut codecs platforms during store ∧ Ended store next

/-! ## Steps of a visit -/

/-- What a step of a visit puts into the frontier. -/
def Queues (stopped : Bool) (now : Visiting) : VisitEvent → Nat → FrontierTask → Prop
  | .pageFailed _, pid, task => pid = now.visit.pid ∧ task = now.visit.task
  | .store .., pid, task => pid ∉ now.store.ram.cohort ∧ task.lastVisitMs = 0
  | .finish nowMs _, pid, task => pid = now.visit.pid ∧
      task.lastVisitMs = if now.visit.deep && stopped then deepVisitMs else nowMs
  | _, _, _ => False

section Visits

variable {codecs} {platforms}

/-- The adopted are queued, and the store goes forward. -/
theorem pushAdopted_forward {platform : String} {nowMs : Nat} {adopted : List (Nat × String)}
    {state next : State} (sound : state.Sound platforms)
    (ends : Ends (pushAdopted platform nowMs adopted) state () next) :
    Forward platforms state next ∧
      Pushes (fun pid task => pid ∈ adopted.map Prod.fst ∧ task.lastVisitMs = 0) state.tables
        next.tables := by
  induction adopted generalizing state with
  | nil =>
      obtain ⟨-, rfl⟩ := ends.unique (rfl : Ends (pushAdopted platform nowMs []) state () state)
      exact ⟨.refl sound, .of_frontier rfl⟩
  | cons player adopted ih =>
      obtain ⟨pid, puuid⟩ := player
      obtain ⟨middle, pushed, only, orderly, pushes, -⟩ := frontierPush_pushes platform nowMs
        sound.tables.orderly pid ⟨puuid, 0⟩
      have first := sound.push only orderly pushes fun other task new deep => by
        rw [new.2] at deep
        cases deep
      have rest : Ends (pushAdopted platform nowMs adopted) middle () next := by
        have whole := ends
        unfold Ends pushAdopted at whole
        rw [Prog.bind_of_ok pushed] at whole
        exact whole
      obtain ⟨forward, pushes'⟩ := ih first.sound rest
      refine ⟨first.trans forward, (pushes.mono fun other task new => ?_).trans
        (pushes'.mono fun other task new => ⟨List.mem_cons_of_mem _ new.1, new.2⟩)⟩
      rw [new.1, new.2]
      exact ⟨List.mem_cons_self, rfl⟩

/-- A member is queued, and the store goes forward. -/
theorem visitPush_forward {state next : State} {platform puuid : String}
    {dueMs pid lastVisitMs : Nat} (sound : state.Sound platforms) (member : pid ∈ state.ram.cohort)
    (ends : Ends (frontierPush platform bucketPriority dueMs pid ⟨puuid, lastVisitMs⟩) state ()
      next) :
    Forward platforms state next ∧
      Pushes (fun other task => other = pid ∧ task = ⟨puuid, lastVisitMs⟩) state.tables
        next.tables ∧ ∃ task, next.tables.Queued pid task := by
  obtain ⟨after, pushed, only, orderly, pushes, held⟩ := frontierPush_pushes platform dueMs
    sound.tables.orderly pid ⟨puuid, lastVisitMs⟩
  obtain ⟨-, rfl⟩ := ends.unique pushed
  exact ⟨sound.push only orderly pushes fun other task new _ => new.1 ▸ member, pushes, held⟩

/-- **A step of a visit** goes forward, pushes only the visit's own tasks, and a visit that is done
has queued its player. -/
theorem visitStep_forward {stopped : Bool} {now next : Visiting} {event : VisitEvent}
    (sound : now.store.Sound platforms) (member : now.visit.pid ∈ now.store.ram.cohort)
    (step : VisitStep codecs stopped now event next) :
    Forward platforms now.store next.store ∧
      Pushes (Queues stopped now event) now.store.tables next.store.tables ∧
      next.visit = now.visit.goTo next.visit.phase ∧
      (next.visit.phase = .done → ∃ task, next.store.tables.Queued now.visit.pid task) := by
  obtain ⟨store, platform, pid, task, phase⟩ := now
  simp only at sound member
  cases event with
  | page page =>
      cases phase with
      | awaiting ids start =>
          cases step
          exact ⟨.refl sound, .of_frontier rfl, rfl, nofun⟩
      | _ => exact step.elim
  | pageFailed nowMs =>
      cases phase with
      | awaiting ids start =>
          obtain ⟨ends, moved⟩ := step
          have pushed : Ends (frontierPush platform bucketPriority (nowMs + 3600 * 1000) pid
              ⟨task.puuid, task.lastVisitMs⟩) store () next.store := ends
          obtain ⟨forward, pushes, held⟩ := visitPush_forward sound member pushed
          exact ⟨forward, pushes, by rw [moved]; rfl, fun _ => held⟩
      | _ => exact step.elim
  | nextPage =>
      cases phase with
      | listing ids pageLen start =>
          obtain ⟨-, rfl⟩ := step
          exact ⟨.refl sound, .of_frontier rfl, rfl, nofun⟩
      | _ => exact step.elim
  | list rank =>
      cases phase with
      | listing ids pageLen start =>
          obtain ⟨-, buffered, moved⟩ := step
          obtain ⟨pendingRanks, ends⟩ := bufferRank_ends pid rank store
          rw [(buffered.unique ends).2, moved]
          exact ⟨sound.rank _, .of_frontier rfl, rfl, nofun⟩
      | _ => exact step.elim
  | select =>
      cases phase with
      | listed ids =>
          cases step
          exact ⟨.refl sound, .of_frontier rfl, rfl, nofun⟩
      | _ => exact step.elim
  | skip matchId =>
      cases phase with
      | fetching ids left =>
          obtain ⟨-, -, rfl⟩ := step
          exact ⟨.refl sound, .of_frontier rfl, rfl, nofun⟩
      | _ => exact step.elim
  | fetchFailed matchId =>
      cases phase with
      | fetching ids left =>
          obtain ⟨-, rfl⟩ := step
          exact ⟨.refl sound, .of_frontier rfl, rfl, nofun⟩
      | _ => exact step.elim
  | mark matchId =>
      cases phase with
      | fetching ids left =>
          obtain ⟨-, other, num, -, marked, moved⟩ := step
          rw [(marked.unique (markSeen_ends .markSeen other num store)).2, moved]
          exact ⟨sound.mark _ _ _, .of_frontier rfl, rfl, nofun⟩
      | _ => exact step.elim
  | store matchId given clock failed =>
      cases phase with
      | fetching ids left =>
          obtain ⟨-, -, -, -, -, ⟨adopted, between, stored, pushed⟩, moved⟩ := step
          obtain ⟨first, same, outside⟩ := storeMatch_forward codecs sound stored
          obtain ⟨second, pushes⟩ := pushAdopted_forward first.sound pushed
          refine ⟨first.trans second, Pushes.trans (.of_frontier same) (pushes.mono ?_),
            by rw [moved]; rfl, by rw [moved]; nofun⟩
          intro other task new
          obtain ⟨player, inside, rfl⟩ := List.mem_map.mp new.1
          exact ⟨outside player ((queuedOf_sublist failed adopted).subset inside), new.2⟩
      | _ => exact step.elim
  | finish nowMs dueMs =>
      cases phase with
      | fetching ids left =>
          cases left with
          | nil =>
              obtain ⟨ends, moved⟩ := step
              unfold reschedule at ends
              split at ends
              · next resumes =>
                  obtain ⟨forward, pushes, held⟩ := visitPush_forward sound member ends
                  refine ⟨forward, pushes.mono fun other given new => ⟨new.1, ?_⟩,
                    by rw [moved]; rfl, fun _ => held⟩
                  rw [if_pos resumes, new.2]
              · next ended =>
                  obtain ⟨forward, pushes, held⟩ := visitPush_forward sound member ends
                  refine ⟨forward, pushes.mono fun other given new => ⟨new.1, ?_⟩,
                    by rw [moved]; rfl, fun _ => held⟩
                  rw [if_neg ended, new.2]
          | cons => exact step.elim
      | _ => exact step.elim

end Visits

/-! ## Enrolment -/

section Enrol

variable {platforms} {state next : State}

/-- The ranks wait in memory, and nothing else changes. -/
theorem bufferRanks_ends (nowMs : Nat) (ranks : List (Nat × RankSnap)) (state : State) :
    ∃ pendingRanks, Ends (bufferRanks nowMs ranks) state ()
      { state with ram := { state.ram with pendingRanks := pendingRanks } } := by
  induction ranks generalizing state with
  | nil => exact ⟨_, rfl⟩
  | cons rank ranks ih =>
      obtain ⟨pid, snap⟩ := rank
      obtain ⟨pendingRanks, rest⟩ := ih
        { state with
          ram := { state.ram with pendingRanks := state.ram.pendingRanks ++ [(pid, nowMs, snap)] } }
      have first : Ends (addRankSnapshot pid nowMs snap) state () _ := rfl
      exact ⟨pendingRanks, first.bind rest⟩

/-- **An enrolment** goes forward and pushes only players of the page that were never visited. -/
theorem enroll_forward {platform : String} {entries : List (String × RankSnap)}
    {source nowMs newly : Nat} (sound : state.Sound platforms)
    (ends : Ends (enroll platform entries source nowMs) state newly next) :
    Forward platforms state next ∧
      Pushes (fun pid task => pid ∈ (state.ram.assign (entries.map Prod.fst)).2.1 ∧
        task.lastVisitMs = 0) state.tables next.tables := by
  have assigned := assignPlayerIds_ends (entries.map Prod.fst) state
  obtain ⟨first, same, -⟩ := assignPlayerIds_forward sound assigned
  obtain ⟨_, batch⟩ := cohortAddBatch_ends (state.ram.assign (entries.map Prod.fst)).2.1 source
    nowMs _
  obtain ⟨second, same'⟩ := cohortAddBatch_forward first.sound batch
  obtain ⟨pendingRanks, buffered⟩ := bufferRanks_ends nowMs
    ((state.ram.assign (entries.map Prod.fst)).2.1.zip (entries.map Prod.snd)) _
  have third := second.sound.rank pendingRanks
  obtain ⟨last, pushed, only, orderly, pushes⟩ := frontierPushBatch_pushes platform nowMs
    third.sound.tables.orderly
    (((state.ram.assign (entries.map Prod.fst)).2.1.zip (entries.map Prod.fst)).map
      fun (pid, puuid) => (pid, (⟨puuid, 0⟩ : FrontierTask)))
  have whole : Ends (enroll platform entries source nowMs) state _ last :=
    assigned.bind (batch.bind (buffered.bind (pushed.bind rfl)))
  have new : ∀ pid task,
      (pid, task) ∈ ((state.ram.assign (entries.map Prod.fst)).2.1.zip (entries.map Prod.fst)).map
        (fun (pid, puuid) => (pid, (⟨puuid, 0⟩ : FrontierTask))) →
      pid ∈ (state.ram.assign (entries.map Prod.fst)).2.1 ∧ task.lastVisitMs = 0 := by
    intro pid task inside
    obtain ⟨⟨_, puuid⟩, there, same⟩ := List.mem_map.mp inside
    cases same
    exact ⟨(List.of_mem_zip there).1, rfl⟩
  have fourth := third.sound.push only orderly pushes fun pid task inside deep => by
    rw [(new pid task inside).2] at deep
    cases deep
  obtain ⟨-, rfl⟩ := ends.unique whole
  have kept : Pushes (fun pid task => pid ∈ (state.ram.assign (entries.map Prod.fst)).2.1 ∧
      task.lastVisitMs = 0) state.tables _ := .of_frontier (same'.trans same)
  exact ⟨first.trans (second.trans (third.trans fourth)), kept.trans (pushes.mono new)⟩

end Enrol

/-! ## Calls that are cut short -/

section Cuts

variable {codecs} {platforms} {state after : State}

/-- What is durable is the same. -/
def SameDurable (before after : State) : Prop := after.durable = before.durable

instance : Std.Refl SameDurable := ⟨fun _ => rfl⟩

instance : IsTrans State SameDurable := ⟨fun _ _ _ one two => two.trans one⟩

/-- The steps of any fast transaction. -/
theorem sameDurable_steps : Transacts Any Any fun (α : Type) (program : Act α) =>
    Leaves SameDurable program :=
  leaves_steps (fun _ => rfl) (fun _ _ _ => rfl) (fun _ _ _ => rfl) fun _ => rfl

/-- Ranks that wait are not durable. -/
theorem bufferRanks_sameDurable (nowMs : Nat) (ranks : List (Nat × RankSnap)) :
    Leaves SameDurable (bufferRanks nowMs ranks) := by
  induction ranks with
  | nil => exact .pure _
  | cons rank ranks ih => exact (sameDurable_steps.remember _ trivial).bind fun _ => ih

/-- A page that is enrolled is not durable. -/
theorem enroll_sameDurable (platform : String) (entries : List (String × RankSnap))
    (source nowMs : Nat) : Leaves SameDurable (enroll platform entries source nowMs) :=
  (sameDurable_steps.assignPlayerIds (fun _ => trivial) _).bind fun _ =>
    (sameDurable_steps.cohortAddBatch edits_any (fun _ => trivial) _ _ _).bind fun _ =>
      (bufferRanks_sameDurable _ _).bind fun _ =>
        (sameDurable_steps.frontierPushBatch edits_any _ _ _ _).bind fun _ => .pure _

/-- What a match that is cut short leaves durable. -/
theorem storeVisited_cut (given : Match) (clock : Clock) :
    Meets (storeVisited codecs given clock) state (fun _ _ => True)
      fun _ after => ∃ between, Archiving (given.committed state) between ∧
        after.durable = between.durable := by
  have archive : Meets (archive codecs (given.filled state.ram) given.puuids clock)
      (given.committed state)
      (fun _ after => ∃ between, Archiving (given.committed state) between ∧
        after.durable = between.durable)
      fun _ after => ∃ between, Archiving (given.committed state) between ∧
        after.durable = between.durable := by
    rw [archive_eq]
    refine Meets.bind ((archiveRecord_archiving codecs _ _ _ (given.committed state)).mono
      (fun _ _ here => here) fun _ after here => ⟨after, here, rfl⟩) fun _ after archiving => ?_
    exact fun _ => ⟨after, archiving, rfl⟩
  have stored : Meets (storeMatch codecs given.record given.puuids given.tsMs given.growthPaused
      clock) state
      (fun _ after => ∃ between, Archiving (given.committed state) between ∧
        after.durable = between.durable)
      fun _ after => ∃ between, Archiving (given.committed state) between ∧
        after.durable = between.durable :=
    storeMatch_of_archive (fun _ after stopped => ⟨_, Std.Refl.refl _,
      stopped.outside.durable.trans (given.inTxn_outside state).durable.symm⟩) archive
  refine stored.bind fun adopted between left => ?_
  obtain ⟨archived, archiving, durable⟩ := left
  refine (pushAdopted_steps sameDurable_steps edits_any _ _ adopted between).mono
    (fun _ _ _ => trivial) fun _ after same => ⟨archived, archiving, ?_⟩
  have pushed : after.durable = between.durable := same
  exact pushed.trans durable

/-- A match that a crash cuts short. -/
theorem storeVisited_fallback (sound : state.Sound platforms) (given : Match) (clock : Clock) :
    Meets (storeVisited codecs given clock) state (fun _ _ => True)
      fun _ after => Fallback platforms state after := by
  have committed := sound.committed given
  refine (storeVisited_cut given clock).mono (fun _ _ _ => trivial) fun _ after left => ?_
  obtain ⟨between, archiving, durable⟩ := left
  have later := committed.sound.archiving archiving
  exact ⟨durable ▸ later.sound.durable, fun platform enabled gameId here =>
    durable ▸ later.saved platform enabled gameId (committed.saved platform enabled gameId here)⟩

/-- What a commit that is cut short leaves durable. -/
theorem commit_cut (nowMs : Nat) (order : List String) :
    Meets (commit codecs nowMs order) state (fun _ _ => True)
      fun _ after => ∃ between, Archiving state between ∧ after.durable = between.durable := by
  rw [commit_eq]
  refine Meets.bind ((checkpointFlush_archiving codecs nowMs order state).mono
    (fun _ _ here => here) fun _ after here => ⟨after, here, rfl⟩) fun _ between archiving => ?_
  exact (commitBitmaps_meets between).mono (fun _ _ _ => trivial) fun _ after stopped =>
    ⟨between, archiving, stopped.1.durable⟩

/-- A commit that a crash cuts short. -/
theorem commit_fallback (sound : state.Sound platforms) (nowMs : Nat) (order : List String) :
    Meets (commit codecs nowMs order) state (fun _ _ => True)
      fun _ after => Fallback platforms state after := by
  refine (commit_cut nowMs order).mono (fun _ _ _ => trivial) fun _ after left => ?_
  obtain ⟨between, archiving, durable⟩ := left
  have later := sound.archiving archiving
  exact ⟨durable ▸ later.sound.durable, fun platform enabled gameId here =>
    durable ▸ later.saved platform enabled gameId here⟩

/-- Nothing changes. -/
def Unchanged (before after : State) : Prop := after = before

instance : Std.Refl Unchanged := ⟨fun _ => rfl⟩

instance : IsTrans State Unchanged := ⟨fun _ _ _ one two => two.trans one⟩

/-- An opening that a crash cuts short. -/
theorem openStore_durable (platforms : List String) (state : State) :
    Meets (openStore platforms) state (fun _ _ => True)
      fun _ after => after.durable = state.durable ∨ after.durable = state.tables := by
  refine Meets.step_bind (.inl rfl) (.inl rfl) ?_
  have tables : ∀ tables, Leaves Unchanged (openTables tables) := openTables_leaves
  refine Meets.bind ((tables _ _).mono (fun _ _ here => here) fun _ _ same => ?_)
    fun _ _ same => ?_
  · rw [show _ = _ from same]
    exact .inl rfl
  · rw [show _ = _ from same]
    refine Meets.step_bind (.inl rfl) (.inl rfl) (Meets.step_bind (.inr rfl) (.inr rfl) ?_)
    refine Meets.bind ((tables _ _).mono (fun _ _ here => here) fun _ _ same => ?_)
      fun _ _ same => Meets.gets_bind (Meets.modify trivial)
    rw [show _ = _ from same]
    exact .inr rfl

/-- Of the calls of a running server, only that of a match and a commit make something durable. -/
theorem Call.meets_cut {call : Call} {kept : State → Prop} (up : call ≠ .openStore)
    (same : ∀ after, SameDurable state after → kept after)
    (visited : ∀ given clock, call = .storeVisited given clock →
      Meets (Server.storeVisited codecs given clock) state (fun _ _ => True) fun _ => kept)
    (committed : ∀ nowMs order, call = .commit nowMs order →
      Meets (Store.commit codecs nowMs order) state (fun _ _ => True) fun _ => kept) :
    Meets (call.run codecs platforms) state (fun _ _ => True) fun _ => kept := by
  have leaves : ∀ {program : Act Unit}, Leaves SameDurable program →
      Meets program state (fun _ _ => True) fun _ => kept :=
    fun leaves => (leaves state).mono (fun _ _ _ => trivial) fun _ => same
  cases call with
  | openStore => exact (up rfl).elim
  | reconcile nowMs =>
      exact leaves ((sameDurable_steps.frontierReconcile edits_any _ _).bind fun _ => .pure _)
  | backfill nowMs =>
      exact leaves ((sameDurable_steps.frontierBackfillReset edits_any _).bind fun _ => .pure _)
  | popDue platform nowMs =>
      exact leaves ((sameDurable_steps.frontierPopDue edits_any _ _).bind fun _ => .pure _)
  | push platform dueMs pid task =>
      exact leaves (sameDurable_steps.frontierPush edits_any _ _ _ _ _)
  | enroll platform entries source nowMs =>
      exact leaves ((enroll_sameDurable _ _ _ _).bind fun _ => .pure _)
  | storeVisited given clock => exact visited given clock rfl
  | commit nowMs order => exact committed nowMs order rfl

/-- **A call that a crash cuts short.** -/
theorem Call.fallback {call : Call} {cut cut' : Cut} {halt : Halt Site}
    (sound : state.Sound platforms) (up : call ≠ .openStore)
    (run : call.run codecs platforms ⟨state, cut⟩ = (.error halt, ⟨after, cut'⟩)) :
    Fallback platforms state after :=
  (Call.meets_cut up (fun _ same => .of_same sound same)
    (fun given clock _ => storeVisited_fallback sound given clock)
    fun nowMs order _ => commit_fallback sound nowMs order).error run

end Cuts

end LolCrawler.Server
