import LolCrawler.Server.Ladder

/-! # An idle region

A region that has nothing to do reads when its next task is due, and sleeps. Meanwhile the other
regions go on, but none of them touches a task of this platform: a push leaves whoever waits
where they are, wherever that is. So the region never sleeps over a task by more than a second.
-/

namespace LolCrawler.Server

open Foundation Segment Store

/-- The same tasks wait on the platform. -/
def SameTasks (platform : String) (before after : Tables) : Prop :=
  ∀ bucket dueMs pid, after.frontier.get (platform, bucket, dueMs, pid) =
    before.frontier.get (platform, bucket, dueMs, pid)

section Apart

variable {platform other : String} {first second third : Tables}

/-- The same frontier has the same tasks. -/
theorem SameTasks.of_frontier (same : second.frontier = first.frontier) :
    SameTasks platform first second := fun _ _ _ => by rw [same]

/-- Two changes, one after the other, that leave the tasks of the platform. -/
theorem SameTasks.trans (one : SameTasks platform first second)
    (two : SameTasks platform second third) : SameTasks platform first third :=
  fun bucket dueMs pid => (two bucket dueMs pid).trans (one bucket dueMs pid)

/-! ## Calls -/

/-- Whoever waits stays, and the others wait on their own platform. -/
theorem pushed_apart {tables : Tables} (orderly : tables.Orderly) (different : other ≠ platform)
    (dueMs : Nat) (item : Nat × FrontierTask) :
    SameTasks platform tables (tables.pushed other bucketPriority dueMs item) := by
  intro bucket due pid
  unfold Tables.pushed
  rw [orderly.queued_bucket]
  cases found : tables.frontierIdx.get item.1 with
  | some key => rfl
  | none =>
      have away : (platform, bucket, due, pid) ≠ (other, bucketPriority, dueMs, item.1) :=
        fun keys => different (Prod.mk.inj keys).1.symm
      rw [Option.isSome_none, if_neg Bool.false_ne_true, Tables.dequeue, Tables.enqueue,
        Table.get_insert, if_neg away]

/-- A batch for another platform leaves the tasks of this one. -/
theorem pushedAll_apart {tables : Tables} (orderly : tables.Orderly) (different : other ≠ platform)
    (dueMs : Nat) (items : List (Nat × FrontierTask)) :
    SameTasks platform tables (items.foldl (Tables.pushed other bucketPriority dueMs) tables) := by
  induction items generalizing tables with
  | nil => exact .of_frontier rfl
  | cons item items ih =>
      exact (pushed_apart orderly different dueMs item).trans
        (ih (orderly.pushed other dueMs item).1)

/-- A push for another platform leaves the tasks of this one. -/
theorem frontierPush_apart {state next : State} {dueMs pid : Nat} {task : FrontierTask}
    (orderly : state.tables.Orderly) (different : other ≠ platform)
    (ends : Ends (frontierPush other bucketPriority dueMs pid task) state () next) :
    SameTasks platform state.tables next.tables := by
  rw [(ends.unique (frontierPush_ends _ _ _ _ _ _)).2]
  exact pushed_apart orderly different dueMs (pid, task)

/-- The adopted of another platform leave the tasks of this one. -/
theorem pushAdopted_apart {state next : State} {platforms : List String} {nowMs : Nat}
    {adopted : List (Nat × String)} (sound : state.Sound platforms) (different : other ≠ platform)
    (ends : Ends (pushAdopted other nowMs adopted) state () next) :
    SameTasks platform state.tables next.tables := by
  induction adopted generalizing state with
  | nil =>
      rw [(ends.unique (rfl : Ends (pushAdopted other nowMs []) state () state)).2]
      exact .of_frontier rfl
  | cons player adopted ih =>
      obtain ⟨pid, puuid⟩ := player
      obtain ⟨middle, pushed, only, orderly, pushes, -⟩ := frontierPush_pushes other nowMs
        sound.tables.orderly pid ⟨puuid, 0⟩
      have forward := sound.push only orderly pushes fun _ task new deep => by
        rw [new.2] at deep
        cases deep
      have rest : Ends (pushAdopted other nowMs adopted) middle () next := by
        have whole := ends
        unfold Ends pushAdopted at whole
        rw [Prog.bind_of_ok pushed] at whole
        exact whole
      exact (frontierPush_apart sound.tables.orderly different pushed).trans
        (ih forward.sound rest)

/-- A pop of another platform leaves the tasks of this one. -/
theorem frontierPopDue_apart {state next : State} {nowMs : Nat}
    {result : Option (Nat × Nat × FrontierTask)} (orderly : state.tables.Orderly)
    (different : other ≠ platform)
    (ends : Ends (frontierPopDue other nowMs) state result next) :
    SameTasks platform state.tables next.tables := by
  obtain ⟨found, after, popped, least⟩ := frontierPopDue_ends other nowMs state orderly.paired
  obtain ⟨rfl, rfl⟩ := ends.unique popped
  cases result with
  | none => exact .of_frontier (by rw [State.committed, least.unchanged rfl])
  | some entry =>
      obtain ⟨bucket, pid, task⟩ := entry
      obtain ⟨dueMs, -, -, rfl, -⟩ := least.least bucket pid task rfl
      intro bucket' due pid'
      have away : (platform, bucket', due, pid') ≠ (other, bucket, dueMs, pid) :=
        fun keys => different (Prod.mk.inj keys).1.symm
      show (state.tables.popped ⟨other, bucket, dueMs⟩ pid).frontier.get _ = _
      rw [Tables.popped, Table.get_remove, if_neg away]

/-- A page of another platform leaves the tasks of this one. -/
theorem enroll_apart {state next : State} {platforms : List String}
    {entries : List (String × RankSnap)} {source nowMs newly : Nat}
    (sound : state.Sound platforms) (different : other ≠ platform)
    (ends : Ends (enroll other entries source nowMs) state newly next) :
    SameTasks platform state.tables next.tables := by
  obtain ⟨between, enrols⟩ := enroll_leaves sound ends
  rw [enrols.tables]
  exact (SameTasks.of_frontier enrols.frontier).trans
    (pushedAll_apart enrols.orderly different nowMs _)

end Apart

/-! ## Steps of the other regions -/

section Others

variable {codecs : Codecs} {platforms : List String} {platform : String} {crawl after : Crawl}

/-- A match that is stored is of the region that visits. -/
theorem visitStep_record {stopped : Bool} {now next : Visiting} {matchId : String} {given : Match}
    {clock : Clock} {failed : Option Nat}
    (step : VisitStep codecs stopped now (.store matchId given clock failed) next) :
    given.record.platform = now.visit.platform := by
  unfold VisitStep at step
  split at step
  all_goals first | contradiction | skip
  next own _ =>
    cases own
    exact step.2.2.1

/-- A visit of another platform leaves the tasks of this one. -/
theorem visitStep_apart {stopped : Bool} {now next : Visiting} {event : VisitEvent}
    (sound : now.store.Sound platforms) (different : now.visit.platform ≠ platform)
    (step : VisitStep codecs stopped now event next) :
    SameTasks platform now.store.tables next.store.tables := by
  cases visitStep_moves step with
  | quiet seen dirty ranks same =>
      rw [same]
      exact .of_frontier rfl
  | pushed dueMs given ends => exact frontierPush_apart sound.tables.orderly different ends
  | stored matchId given clock failed adopted between own stored pushed =>
      rw [own] at step
      obtain ⟨forward, same, -⟩ := storeMatch_forward codecs sound stored
      have away : given.record.platform ≠ platform := visitStep_record step ▸ different
      exact (SameTasks.of_frontier same).trans (pushAdopted_apart forward.sound away pushed)

/-- **While the server runs**, only steps of a region change what waits on its platform. -/
theorem CrawlStep.apart {event : Event} (step : CrawlStep codecs platforms crawl event after)
    (platform : String) (sound : crawl.Sound platforms) (mode : crawl.mode = .serving)
    (alive : event.ends = false) :
    after.mode = .serving ∧ (event.ofRegion platform = false →
      SameTasks platform crawl.store.tables after.store.tables) := by
  have held := sound.up (by rw [mode]; nofun)
  cases event with
  | openStore => exact (nomatch mode.symm.trans step.1)
  | reconcile nowMs => exact (nomatch mode.symm.trans step.1)
  | backfill nowMs => exact (nomatch mode.symm.trans step.1)
  | spawn => exact (nomatch mode.symm.trans step.1)
  | popDue other nowMs =>
      obtain ⟨-, -, -, result, store, ends, rfl⟩ := step
      exact ⟨mode, fun away =>
        frontierPopDue_apart held.tables.orderly (of_decide_eq_false away) ends⟩
  | check other =>
      obtain ⟨running, -, -, rfl⟩ := step
      exact ⟨mode, fun _ => .of_frontier rfl⟩
  | visit other event =>
      obtain ⟨running, here, -, store, visit, step, rfl⟩ := step
      have own := (sound.regions other running here).2.1
      exact ⟨mode, fun away =>
        visitStep_apart held (own ▸ of_decide_eq_false away) step⟩
  | enroll other entries source nowMs =>
      obtain ⟨-, -, -, newly, store, ends, rfl⟩ := step
      exact ⟨mode, fun away => enroll_apart held (of_decide_eq_false away) ends⟩
  | snapshot pid tsMs snap =>
      obtain ⟨-, store, ends, rfl⟩ := step
      cases ends
      exact ⟨mode, fun _ => .of_frontier rfl⟩
  | commit nowMs order =>
      obtain ⟨-, store, ends, rfl⟩ := step
      exact ⟨mode, fun _ => .of_frontier (commit_forward codecs held ends).2.1⟩
  | persist =>
      obtain ⟨-, rfl⟩ := step
      exact ⟨mode, fun _ => .of_frontier rfl⟩
  | stop =>
      obtain ⟨-, rfl⟩ := step
      exact ⟨mode, fun _ => .of_frontier rfl⟩
  | exit nowMs order => cases alive
  | crash during => cases alive

end Others

/-! ## The sleep -/

/-- A sleep of one to thirty seconds, over no task by more than a second. -/
structure Rests (platform : String) (tables : Tables) (sinceMs wakeMs : Nat) : Prop where
  least : sinceMs + 1000 ≤ wakeMs
  most : wakeMs ≤ sinceMs + 30000
  wakes : ∀ dueMs, tables.DueAt platform dueMs → wakeMs ≤ max dueMs (sinceMs + 1000)

/-- The sleep that is computed is over no task. -/
theorem Rests.start {platform : String} {tables : Tables} {nextDue : Option Nat}
    (least : Least (tables.DueAt platform) nextDue) (nowMs : Nat) :
    Rests platform tables nowMs (nowMs + idleMs nextDue nowMs) := by
  cases nextDue with
  | none =>
      refine ⟨?_, ?_, fun dueMs here => (least dueMs here).elim⟩
      · simp [idleMs]
      · simp [idleMs]
  | some due =>
      have sleep : idleMs (some due) nowMs = min (max (due - nowMs) 1000) 30000 := rfl
      refine ⟨by omega, by omega, fun dueMs here => ?_⟩
      have first : due ≤ dueMs := least.2 here
      omega

/-- A sleep is over the same tasks. -/
theorem Rests.apart {platform : String} {before after : Tables} {sinceMs wakeMs : Nat}
    (rests : Rests platform before sinceMs wakeMs) (same : SameTasks platform before after) :
    Rests platform after sinceMs wakeMs := by
  refine ⟨rests.least, rests.most, fun dueMs here => ?_⟩
  obtain ⟨bucket, pid, here⟩ := here
  rw [same] at here
  exact rests.wakes dueMs ⟨bucket, pid, here⟩

/-- What an idle region is like in every run. -/
structure Region.Dozes (platform : String) (now : Region) : Prop where
  up : now.stage ≠ .down → now.crawl.mode = .serving
  rests : ∀ sinceMs wakeMs, now.stage = .sleeping sinceMs wakeMs →
    Rests platform now.crawl.store.tables sinceMs wakeMs

section Steps

variable {codecs : Codecs} {platforms : List String} {platform : String} {now next : Region}

/-- The loop goes on, awake. -/
theorem Region.Dozes.goes (dozes : now.Dozes platform) (up : now.stage ≠ .down) {stage : Stage}
    {marks saved : Marks} {braked : Bool} {counts : List Nat}
    (awake : ∀ sinceMs wakeMs, stage ≠ .sleeping sinceMs wakeMs) :
    Region.Dozes platform ⟨now.crawl, marks, saved, stage, braked, counts⟩ :=
  ⟨fun _ => dozes.up up, fun sinceMs wakeMs here => (awake sinceMs wakeMs here).elim⟩

/-- The loop takes a step of the server, awake. -/
theorem Region.Dozes.serves (dozes : now.Dozes platform) (steady : now.crawl.Steady platforms)
    (up : now.stage ≠ .down) {event : Event} {stage : Crawl → Stage}
    (serves : now.Serves codecs platforms event stage next) (alive : event.ends = false)
    (awake : ∀ crawl sinceMs wakeMs, stage crawl ≠ .sleeping sinceMs wakeMs) :
    next.Dozes platform := by
  rw [serves.rest]
  exact ⟨fun _ => (serves.step.1.apart platform steady.sound (dozes.up up) alive).1,
    fun sinceMs wakeMs here => (awake _ sinceMs wakeMs here).elim⟩

/-- The server takes a step of its own, or one of another region. -/
theorem Region.Dozes.served (dozes : now.Dozes platform) (steady : now.crawl.Steady platforms)
    {event : Event} {crawl : Crawl} {saved : Marks}
    (step : MadeStep codecs platforms now.crawl event crawl) (alive : event.ends = false)
    (apart : event.ofRegion platform = false) :
    Region.Dozes platform { now with crawl := crawl, saved := saved } := by
  refine ⟨fun up => (step.1.apart platform steady.sound (dozes.up up) alive).1,
    fun sinceMs wakeMs here => ?_⟩
  have mode := dozes.up (by rw [show now.stage = _ from here]; nofun)
  exact (dozes.rests sinceMs wakeMs here).apart ((step.1.apart _ steady.sound mode alive).2 apart)

/-- **Each step** leaves a sleeping region with nothing to do before it wakes. -/
theorem RegionStep.dozes {event : RegionEvent} (steady : now.crawl.Steady platforms)
    (step : RegionStep codecs platforms platform now event next) (dozes : now.Dozes platform) :
    next.Dozes platform := by
  cases event with
  | server event =>
      obtain ⟨apart, -, crawl, saved, step, -, rfl⟩ := step
      cases event with
      | spawn =>
          obtain ⟨-, same⟩ := step.1
          exact ⟨fun _ => by rw [served_crawl, same], nofun⟩
      | backfill nowMs =>
          obtain ⟨-, count, store, -, same⟩ := step.1
          exact ⟨fun _ => by rw [served_crawl, same], nofun⟩
      | exit nowMs order => exact ⟨fun up => (up rfl).elim, nofun⟩
      | crash during => exact ⟨fun up => (up rfl).elim, nofun⟩
      | _ => exact dozes.served steady step rfl apart
  | begin nowMs =>
      obtain ⟨here, rfl⟩ := step
      refine dozes.goes (by rw [here]; nofun) fun sinceMs wakeMs => ?_
      split
      · nofun
      · split <;> nofun
  | league nowMs =>
      obtain ⟨league, nowS, here, step⟩ := step
      have up : now.stage ≠ .down := by rw [here]; nofun
      split at step
      · rw [step]
        exact dozes.goes up nofun
      · split at step
        · rw [step]
          exact dozes.goes up nofun
        · obtain ⟨braked, ⟨overdue, -, rfl⟩, rfl⟩ := step
          refine dozes.goes up fun sinceMs wakeMs => ?_
          split <;> nofun
  | listed list nowMs =>
      obtain ⟨league, nowS, names, here, -, serves⟩ := step
      exact dozes.serves steady (by rw [here]; nofun) serves rfl nofun
  | listFailed nowMs =>
      obtain ⟨league, nowS, here, rfl⟩ := step
      refine dozes.goes (by rw [here]; nofun) fun sinceMs wakeMs => ?_
      split <;> nofun
  | markSeeded =>
      obtain ⟨nowS, here, rfl⟩ := step
      exact dozes.goes (by rw [here]; nofun) nofun
  | retry nowMs =>
      obtain ⟨wakeMs, here, -, rfl⟩ := step
      exact dozes.goes (by rw [here]; nofun) nofun
  | pop nowMs =>
      refine dozes.serves steady (by rw [step.1]; nofun) step.2 rfl fun crawl sinceMs wakeMs => ?_
      split <;> nofun
  | check =>
      refine dozes.serves steady (by rw [step.1]; nofun) step.2 rfl fun crawl sinceMs wakeMs => ?_
      split <;> nofun
  | start nowMs =>
      obtain ⟨here, braked, ⟨overdue, -, rfl⟩, rfl⟩ := step
      exact dozes.goes (by rw [here]; nofun) nofun
  | visit event =>
      refine dozes.serves steady (by rw [step.1]; nofun) step.2.2 rfl fun crawl sinceMs wakeMs => ?_
      split <;> nofun
  | expand nowMs =>
      obtain ⟨here, braked, ⟨overdue, -, rfl⟩, rfl⟩ := step
      refine dozes.goes (by rw [here]; nofun) fun sinceMs wakeMs => ?_
      split
      · nofun
      · split <;> nofun
  | page entries nowMs =>
      obtain ⟨cursor, here, step⟩ := step
      have up : now.stage ≠ .down := by rw [here]; nofun
      split at step
      · rw [step]
        exact dozes.goes up nofun
      · obtain ⟨newly, -, serves⟩ := step
        exact dozes.serves steady up serves rfl nofun
  | pageFailed =>
      obtain ⟨cursor, here, rfl⟩ := step
      refine dozes.goes (by rw [here]; nofun) fun sinceMs wakeMs => ?_
      split <;> nofun
  | advance =>
      obtain ⟨cursor, entries, newly, here, rfl⟩ := step
      refine dozes.goes (by rw [here]; nofun) fun sinceMs wakeMs => ?_
      split <;> nofun
  | rest nowMs =>
      obtain ⟨here, nextDue, ends, rfl⟩ := step
      have mode := dozes.up (by rw [here]; nofun)
      have held := steady.sound.up (by rw [mode]; nofun)
      obtain ⟨least, found, first⟩ := @frontierNextDue_ends platform _ held.tables.orderly.paired
      obtain ⟨rfl, -⟩ := ends.unique found
      refine ⟨fun _ => mode, ?_⟩
      rintro _ _ ⟨⟩
      exact .start first nowMs
  | wake nowMs =>
      obtain ⟨sinceMs, wakeMs, here, -, rfl⟩ := step
      exact dozes.goes (by rw [here]; nofun) nofun
  | close =>
      obtain ⟨here, rfl⟩ := step
      exact dozes.goes (by rw [here]; nofun) nofun
  | commit nowMs order => exact dozes.serves steady (by rw [step.1]; nofun) step.2 rfl nofun
  | finish nowMs order => exact dozes.serves steady (by rw [step.1]; nofun) step.2 rfl nofun

end Steps

/-! ## Runs -/

/-- **An idle region sleeps over nothing.** In every run, a region that sleeps does so for one to
thirty seconds, and wakes before any task of its platform is due, or within a second of falling
asleep, whatever the others do meanwhile; and as long as the loop goes on, only its own steps
change what waits on its platform. -/
theorem idle_sleeps_over_nothing {codecs : Codecs} {platforms : List String} {platform : String}
    {events : List RegionEvent} {now : Region}
    (run : Run (RegionStep codecs platforms platform) .fresh events now) :
    (∀ sinceMs wakeMs, now.stage = .sleeping sinceMs wakeMs →
      sinceMs + 1000 ≤ wakeMs ∧ wakeMs ≤ sinceMs + 30000 ∧
        ∀ bucket dueMs pid task,
          now.crawl.store.tables.frontier.get (platform, bucket, dueMs, pid) = some task →
            wakeMs ≤ max dueMs (sinceMs + 1000)) ∧
      ∀ event next, RegionStep codecs platforms platform now (.server event) next →
        event.ends = false → now.stage ≠ .down → ∀ bucket dueMs pid,
          next.crawl.store.tables.frontier.get (platform, bucket, dueMs, pid) =
            now.crawl.store.tables.frontier.get (platform, bucket, dueMs, pid) := by
  have steady := Region.steady run
  have dozes : now.Dozes platform :=
    Region.invariant ⟨fun up => (up rfl).elim, nofun⟩
      (fun _ _ _ steady _ step held => step.dozes steady held) run
  refine ⟨fun sinceMs wakeMs here => ?_, fun event next step alive up => ?_⟩
  · have rests := dozes.rests sinceMs wakeMs here
    refine ⟨rests.least, rests.most, fun bucket dueMs pid task waits => ?_⟩
    exact rests.wakes dueMs ⟨bucket, pid, Option.isSome_of_eq_some waits⟩
  · obtain ⟨apart, -, crawl, saved, step, -, rfl⟩ := step
    rw [served_crawl]
    exact (step.1.apart _ steady.sound (dozes.up up) alive).2 apart

/-! ## Two regions -/

/-- The store of a server for two platforms. -/
def pairedStore : State := { State.empty with ram := Ram.load ["EUW1", "KR"] .empty }

/-- The store once an apex league of one player is enrolled. -/
def dozingStore : State :=
  (enroll "EUW1" (apexEntries "CHALLENGER" [⟨"a", 1, 2, 3⟩]) cohortSrcApex 5000
    ⟨pairedStore, .never⟩).2.state

/-- The store once the other region has enrolled a player of its own. -/
def joinedStore : State :=
  (enroll "KR" [("b", sampleRank)] cohortSrcLadder 4500 ⟨dozingStore, .never⟩).2.state

/-- The marks of the region that has passed an empty page. -/
def emptyPage : Marks := ⟨none, some 10001, [⟨0, 1, []⟩]⟩

/-- The server runs, and the region is at a stage. -/
def paired (store : State) (stopped : Bool) (stage : Stage) (counts : List Nat) (marks : Marks) :
    Region :=
  ⟨⟨store, .serving, stopped, fun _ => none⟩, marks, .none, stage, false, counts⟩

/-- A player is enrolled at five seconds, and the clock is set back to four. -/
theorem dozing_reached : ∃ events, Run (RegionStep shortCodecs ["EUW1", "KR"] "EUW1") .fresh events
    (paired dozingStore true (.sleeping 4000 5000) [0, 0] emptyPage) := by
  obtain ⟨past, looping⟩ := looping_reached ["EUW1", "KR"] "EUW1"
  have begun : RegionStep shortCodecs ["EUW1", "KR"] "EUW1"
      (paired pairedStore false .looping [] .none) (.begin 5000)
      (paired pairedStore false (.seeding 0 5) [] .none) := ⟨rfl, rfl⟩
  have asked : RegionStep shortCodecs ["EUW1", "KR"] "EUW1"
      (paired pairedStore false (.seeding 0 5) [] .none) (.league 5000)
      (paired pairedStore false (.listing 0 5) [0] .none) := ⟨0, 5, rfl, _, ⟨0, rfl, rfl⟩, rfl⟩
  have enrolled : Ends (enroll "EUW1" (apexEntries "CHALLENGER" [⟨"a", 1, 2, 3⟩]) cohortSrcApex
      5000) pairedStore 1 dozingStore := .of_eq (by decide +kernel) (by decide +kernel)
  have listed : RegionStep shortCodecs ["EUW1", "KR"] "EUW1"
      (paired pairedStore false (.listing 0 5) [0] .none) (.listed [⟨"a", 1, 2, 3⟩] 5000)
      (paired dozingStore false (.seeding 1 5) [0] .none) :=
    ⟨0, 5, ("challengerleagues", "CHALLENGER"), rfl, rfl,
      ⟨⟨rfl, List.mem_cons_self, rfl, 1, dozingStore, enrolled, rfl⟩, .inl rfl⟩, .kept rfl, rfl⟩
  have stopped : RegionStep shortCodecs ["EUW1", "KR"] "EUW1"
      (paired dozingStore false (.seeding 1 5) [0] .none) (.server .stop)
      (paired dozingStore true (.seeding 1 5) [0] .none) :=
    ⟨rfl, nofun, _, _, ⟨⟨rfl, rfl⟩, trivial⟩, .kept rfl, rfl⟩
  have skipped : RegionStep shortCodecs ["EUW1", "KR"] "EUW1"
      (paired dozingStore true (.seeding 1 5) [0] .none) (.league 5000)
      (paired dozingStore true .popping [0] .none) := ⟨1, 5, rfl, rfl⟩
  have popped : RegionStep shortCodecs ["EUW1", "KR"] "EUW1"
      (paired dozingStore true .popping [0] .none) (.pop 4000)
      (paired dozingStore true .expanding [0] .none) := by
    have nobody : Ends (frontierPopDue "EUW1" 4000) dozingStore none dozingStore :=
      .of_eq (by decide +kernel) (by decide +kernel)
    have idle : Function.update (fun _ : String => (none : Option Running)) "EUW1" none =
        fun _ => none := Function.update_eq_self_iff.mpr rfl
    have still : (⟨dozingStore, .serving, true, fun _ => none⟩ : Crawl) =
        Crawl.setVisit ⟨dozingStore, .serving, true, fun _ => none⟩ "EUW1" none :=
      congrArg (Crawl.mk dozingStore .serving true) idle.symm
    exact ⟨rfl, ⟨⟨rfl, List.mem_cons_self, rfl, none, dozingStore, nobody, still⟩, trivial⟩,
      .kept rfl, rfl⟩
  have counted : Ends (frontierOverdueCount "EUW1" 4000 brakeOverdueGraceMs (brakeOnCount * 2))
      dozingStore 0 dozingStore := .of_eq (by decide +kernel) (by decide +kernel)
  have expanded : RegionStep shortCodecs ["EUW1", "KR"] "EUW1"
      (paired dozingStore true .expanding [0] .none) (.expand 4000)
      (paired dozingStore true (.paging 0) [0, 0] .none) := ⟨rfl, _, ⟨0, counted, rfl⟩, rfl⟩
  have answered : RegionStep shortCodecs ["EUW1", "KR"] "EUW1"
      (paired dozingStore true (.paging 0) [0, 0] .none) (.page [] 4000)
      (paired dozingStore true (.paged 0 [] 0) [0, 0] .none) := ⟨0, rfl, rfl⟩
  have advanced : RegionStep shortCodecs ["EUW1", "KR"] "EUW1"
      (paired dozingStore true (.paged 0 [] 0) [0, 0] .none) .advance
      (paired dozingStore true .idle [0, 0] emptyPage) := ⟨0, [], 0, rfl, rfl⟩
  have rested : RegionStep shortCodecs ["EUW1", "KR"] "EUW1"
      (paired dozingStore true .idle [0, 0] emptyPage) (.rest 4000)
      (paired dozingStore true (.sleeping 4000 5000) [0, 0] emptyPage) :=
    ⟨rfl, some 5000, .of_eq (by decide +kernel) (by decide +kernel), rfl⟩
  exact ⟨_, looping.append (.cons begun (.cons asked (.cons listed (.cons stopped (.cons skipped
    (.cons popped (.cons expanded (.cons answered (.cons advanced (.cons rested
      (.nil _)))))))))))⟩

/-- The region sleeps until its player is due, and the other region enrolls one meanwhile. -/
theorem idle_sleeps_over_nothing_beside :
    dozingStore.tables.frontier.get ("EUW1", bucketPriority, 5000, 1) = some ⟨"a", 0⟩ ∧
    joinedStore.tables.frontier.get ("KR", bucketPriority, 4500, 2) = some ⟨"b", 0⟩ ∧
    (4000 + 1000 ≤ 5000 ∧ 5000 ≤ 4000 + 30000 ∧ ∀ bucket dueMs pid task,
      dozingStore.tables.frontier.get ("EUW1", bucket, dueMs, pid) = some task →
        5000 ≤ max dueMs (4000 + 1000)) ∧
    ∀ bucket dueMs pid, joinedStore.tables.frontier.get ("EUW1", bucket, dueMs, pid) =
      dozingStore.tables.frontier.get ("EUW1", bucket, dueMs, pid) := by
  obtain ⟨past, run⟩ := dozing_reached
  have enrolled : Ends (enroll "KR" [("b", sampleRank)] cohortSrcLadder 4500) dozingStore 1
      joinedStore := .of_eq (by decide +kernel) (by decide +kernel)
  have joined : RegionStep shortCodecs ["EUW1", "KR"] "EUW1"
      (paired dozingStore true (.sleeping 4000 5000) [0, 0] emptyPage)
      (.server (.enroll "KR" [("b", sampleRank)] cohortSrcLadder 4500))
      (paired joinedStore true (.sleeping 4000 5000) [0, 0] emptyPage) :=
    ⟨by decide, nofun, _, _, ⟨⟨rfl, by decide, rfl, 1, joinedStore, enrolled, rfl⟩, .inr rfl⟩,
      .kept rfl, rfl⟩
  obtain ⟨rests, apart⟩ := idle_sleeps_over_nothing run
  refine ⟨by decide +kernel, by decide +kernel, rests 4000 5000 rfl, ?_⟩
  exact apart _ _ joined rfl Stage.noConfusion

end LolCrawler.Server
