import LolCrawler.Server.Ladder

/-! # The brake

The cohort grows along three ways: the apex leagues, the ladder, and the adoption of players who
were seen in enough matches. While the brake is on, a region asks for none but the first apex
league and adopts nobody. The brake is told by the counts of overdue tasks since the start
(`Foundation.hysteresis`); that the count stops at a cap does not matter to it.
-/

namespace LolCrawler.Server

open Foundation Segment Store

/-- The tasks of the platform that are overdue by the grace period or more. -/
def overdueTasks (platform : String) (nowMs : Nat) (tables : Tables) : Nat :=
  (tables.due platform bucketPriority (nowMs - brakeOverdueGraceMs)).length

/-- The step is the region's own. -/
def RegionEvent.own : RegionEvent → Bool
  | .server _ => false
  | _ => true

/-! ## Who joins -/

section Joins

variable {codecs : Codecs} {platforms : List String} {platform : String} {now next : Region}

/-- While growth is paused nobody is adopted. -/
theorem adoptedBy_paused (tsMs : Nat) (players : List (Nat × String)) (found : Ram × Tables) :
    adoptedBy tsMs true players found = [] := by
  induction players generalizing found with
  | nil => rfl
  | cons player players ih =>
      obtain ⟨pid, puuid⟩ := player
      have stays : found.1.adopts true pid = false := by simp [Ram.adopts]
      rw [adoptedBy, stays, ih]
      rfl

/-- While growth is paused a match adopts nobody. -/
theorem storeMatch_paused {state after : State} {given : Match} {clock : Clock} {pid : Nat}
    {adopted : List (Nat × String)} (paused : given.growthPaused = true)
    (ends : Ends (storeMatch codecs given.record given.puuids given.tsMs given.growthPaused clock)
      state adopted after) (member : pid ∈ after.ram.cohort) : pid ∈ state.ram.cohort := by
  have nobody : adopted = [] := by
    rw [(storeMatch_ends codecs ends).1]
    unfold Match.adopted
    split
    · rw [paused]
      exact adoptedBy_paused _ _ _
    · rfl
  rcases storeMatch_members ends member with before | new
  · exact before
  · rw [nobody] at new
    cases new

/-- Whoever joins in a visit is adopted, and growth is not paused. -/
theorem visitStep_joins {stopped : Bool} {visiting after : Visiting} {event : VisitEvent}
    {braked : Bool} (step : VisitStep codecs stopped visiting event after)
    (told : ∀ matchId given clock failed, event = .store matchId given clock failed →
      given.growthPaused = braked)
    {pid : Nat} (joined : pid ∈ after.store.ram.cohort)
    (new : pid ∉ visiting.store.ram.cohort) : braked = false := by
  cases visitStep_moves step with
  | quiet seen dirty ranks same =>
      rw [same] at joined
      exact (new joined).elim
  | pushed dueMs given ends =>
      rw [(frontierPush_only ends).ram] at joined
      exact (new joined).elim
  | stored matchId given clock failed adopted between own stored pushed =>
      rw [(pushAdopted_only pushed).ram] at joined
      by_contra on
      have paused := (told matchId given clock failed own).trans (Bool.of_not_eq_false on)
      exact new (storeMatch_paused paused stored joined)

/-- A commit takes nobody in. -/
theorem commit_joins {state after : State} {nowMs : Nat} {order : List String}
    (sound : state.Sound platforms) (ends : Ends (commit codecs nowMs order) state () after)
    {pid : Nat} (joined : pid ∈ after.ram.cohort) : pid ∈ state.ram.cohort := by
  have sound' := (commit_forward codecs sound ends).1.sound
  rw [sound'.cohort, (commit_members ends).1.2] at joined
  exact (sound.cohort pid).mpr joined

end Joins

/-! ## What the brake allows -/

/-- What the brake is like in every run. -/
structure Region.Gated (now : Region) : Prop where
  told : now.braked = hysteresis brakeOffCount brakeOnCount now.counts
  paging : ∀ cursor, now.stage = .paging cursor → now.braked = false
  listing : ∀ league nowS, now.stage = .listing league nowS → 0 < league → now.braked = false

section Steps

variable {codecs : Codecs} {platforms : List String} {platform : String} {now next : Region}

/-- The brake is the switch with these two thresholds. -/
theorem brake_switched (now : Region) (overdue : Nat) :
    (now.brake overdue).braked = switched brakeOffCount brakeOnCount now.braked overdue := by
  unfold Region.brake switched
  cases now.braked with
  | true => simp
  | false => simp

/-- The brake is told one more count. -/
theorem Region.Gated.brake (gated : now.Gated) (overdue : Nat) :
    (now.brake overdue).braked =
      hysteresis brakeOffCount brakeOnCount (now.brake overdue).counts := by
  rw [brake_switched, gated.told]
  exact (hysteresis_concat _ _ _ _).symm

/-- The loop goes on to a stage at which nothing is asked for. -/
theorem Region.Gated.goes (gated : now.Gated) {stage : Stage} {crawl : Crawl}
    {marks saved : Marks} (paging : ∀ cursor, stage ≠ .paging cursor)
    (listing : ∀ league nowS, stage ≠ .listing league nowS) :
    Region.Gated ⟨crawl, marks, saved, stage, now.braked, now.counts⟩ :=
  ⟨gated.told, fun cursor here => (paging cursor here).elim,
    fun league nowS here => (listing league nowS here).elim⟩

/-- The loop takes a step of the server, and asks for no page. -/
theorem Region.Gated.serves (gated : now.Gated) {event : Event} {stage : Crawl → Stage}
    (serves : now.Serves codecs platforms event stage next)
    (paging : ∀ crawl cursor, stage crawl ≠ .paging cursor)
    (listing : ∀ crawl league nowS, stage crawl ≠ .listing league nowS) : next.Gated := by
  rw [serves.rest]
  exact gated.goes (paging _) (listing _)

/-- **One step** keeps the brake in step with its counts. -/
theorem RegionStep.gated {event : RegionEvent}
    (step : RegionStep codecs platforms platform now event next) (gated : now.Gated) :
    next.Gated := by
  cases event with
  | server event =>
      obtain ⟨-, -, crawl, saved, -, -, rfl⟩ := step
      cases event with
      | spawn => exact ⟨rfl, nofun, nofun⟩
      | backfill nowMs => exact ⟨rfl, nofun, nofun⟩
      | exit nowMs order => exact ⟨rfl, nofun, nofun⟩
      | crash during => exact ⟨rfl, nofun, nofun⟩
      | _ => exact ⟨gated.told, gated.paging, gated.listing⟩
  | begin nowMs =>
      obtain ⟨-, rfl⟩ := step
      refine gated.goes (fun cursor => ?_) fun league nowS => ?_
      · split
        · nofun
        · split <;> nofun
      · split
        · nofun
        · split <;> nofun
  | league nowMs =>
      obtain ⟨league, nowS, -, step⟩ := step
      split at step
      · rw [step]
        exact gated.goes nofun nofun
      · split at step
        · rw [step]
          exact gated.goes nofun nofun
        · obtain ⟨braked, ⟨overdue, -, rfl⟩, rfl⟩ := step
          refine ⟨gated.brake overdue, fun cursor here => ?_, fun other nowS here later => ?_⟩
          · simp only at here
            split at here
            · cases here
            · cases here
          · simp only at here ⊢
            split at here
            · cases here
            · next free =>
                cases here
                simpa [later] using free
  | listed list nowMs =>
      obtain ⟨league, nowS, names, -, -, serves⟩ := step
      exact gated.serves serves nofun nofun
  | listFailed nowMs =>
      obtain ⟨league, nowS, -, rfl⟩ := step
      refine gated.goes (fun cursor => ?_) fun league nowS => ?_
      · split <;> nofun
      · split <;> nofun
  | markSeeded =>
      obtain ⟨nowS, -, rfl⟩ := step
      exact gated.goes nofun nofun
  | retry nowMs =>
      obtain ⟨wakeMs, -, -, rfl⟩ := step
      exact gated.goes nofun nofun
  | pop nowMs =>
      refine gated.serves step.2 (fun crawl cursor => ?_) fun crawl league nowS => ?_
      · split <;> nofun
      · split <;> nofun
  | check =>
      refine gated.serves step.2 (fun crawl cursor => ?_) fun crawl league nowS => ?_
      · split <;> nofun
      · split <;> nofun
  | start nowMs =>
      obtain ⟨-, braked, ⟨overdue, -, rfl⟩, rfl⟩ := step
      exact ⟨gated.brake overdue, nofun, nofun⟩
  | visit event =>
      refine gated.serves step.2.2 (fun crawl cursor => ?_) fun crawl league nowS => ?_
      · split <;> nofun
      · split <;> nofun
  | expand nowMs =>
      obtain ⟨-, braked, ⟨overdue, -, rfl⟩, rfl⟩ := step
      refine ⟨gated.brake overdue, fun cursor here => ?_, fun league nowS here => ?_⟩
      · simp only at here ⊢
        split at here
        · cases here
        · next free => exact Bool.eq_false_of_not_eq_true free
      · simp only at here
        split at here
        · cases here
        · split at here
          · cases here
          · cases here
  | page entries nowMs =>
      obtain ⟨cursor, -, step⟩ := step
      split at step
      · rw [step]
        exact gated.goes nofun nofun
      · obtain ⟨newly, -, serves⟩ := step
        exact gated.serves serves nofun nofun
  | pageFailed =>
      obtain ⟨cursor, -, rfl⟩ := step
      refine gated.goes (fun cursor => ?_) fun league nowS => ?_
      · split <;> nofun
      · split <;> nofun
  | advance =>
      obtain ⟨cursor, entries, newly, -, rfl⟩ := step
      refine gated.goes (fun cursor => ?_) fun league nowS => ?_
      · split <;> nofun
      · split <;> nofun
  | rest nowMs =>
      obtain ⟨-, nextDue, -, rfl⟩ := step
      exact gated.goes nofun nofun
  | wake nowMs =>
      obtain ⟨sinceMs, wakeMs, -, -, rfl⟩ := step
      exact gated.goes nofun nofun
  | close =>
      obtain ⟨-, rfl⟩ := step
      exact gated.goes nofun nofun
  | commit nowMs order => exact gated.serves step.2 nofun nofun
  | finish nowMs order => exact gated.serves step.2 nofun nofun

/-- **Who joins by a step of the region** joins while the brake is off, or from the first apex
league. -/
theorem RegionStep.joins {event : RegionEvent} (steady : now.crawl.Steady platforms)
    (step : RegionStep codecs platforms platform now event next) (own : event.own = true)
    (gated : now.Gated) {pid : Nat} (joined : pid ∈ next.crawl.store.ram.cohort)
    (new : pid ∉ now.crawl.store.ram.cohort) :
    now.braked = false ∨ ∃ nowS, now.stage = .listing 0 nowS := by
  have still : next.crawl = now.crawl → now.braked = false ∨ ∃ nowS, now.stage = .listing 0 nowS :=
    fun same => (new (same ▸ joined)).elim
  cases event with
  | server event => cases own
  | begin nowMs => exact still (by rw [step.2])
  | league nowMs =>
      obtain ⟨league, nowS, -, step⟩ := step
      split at step
      · exact still (by rw [step])
      · split at step
        · exact still (by rw [step])
        · obtain ⟨braked, ⟨overdue, -, rfl⟩, rfl⟩ := step
          exact still rfl
  | listed list nowMs =>
      obtain ⟨league, nowS, names, here, -, serves⟩ := step
      cases league with
      | zero => exact .inr ⟨nowS, here⟩
      | succ league => exact .inl (gated.listing _ _ here (Nat.succ_pos _))
  | listFailed nowMs =>
      obtain ⟨league, nowS, -, rfl⟩ := step
      exact still rfl
  | markSeeded =>
      obtain ⟨nowS, -, rfl⟩ := step
      exact still rfl
  | retry nowMs =>
      obtain ⟨wakeMs, -, -, rfl⟩ := step
      exact still rfl
  | pop nowMs =>
      obtain ⟨mode, -, -, result, store, ends, same⟩ := step.2.step.1
      have held := steady.sound.up (by rw [mode]; nofun)
      obtain ⟨only, -, -⟩ := frontierPopDue_pops held.tables.orderly ends
      rw [same] at joined
      exact (new (only.ram ▸ joined)).elim
  | check =>
      obtain ⟨running, -, -, same⟩ := step.2.step.1
      rw [same] at joined
      exact (new joined).elim
  | start nowMs =>
      obtain ⟨-, braked, ⟨overdue, -, rfl⟩, rfl⟩ := step
      exact still rfl
  | visit event =>
      obtain ⟨-, told, serves⟩ := step
      obtain ⟨running, -, -, store, visit, step, same⟩ := serves.step.1
      rw [same] at joined
      exact .inl (visitStep_joins step told joined new)
  | expand nowMs =>
      obtain ⟨-, braked, ⟨overdue, -, rfl⟩, rfl⟩ := step
      exact still rfl
  | page entries nowMs =>
      obtain ⟨cursor, here, -⟩ := step
      exact .inl (gated.paging cursor here)
  | pageFailed =>
      obtain ⟨cursor, -, rfl⟩ := step
      exact still rfl
  | advance =>
      obtain ⟨cursor, entries, newly, -, rfl⟩ := step
      exact still rfl
  | rest nowMs =>
      obtain ⟨-, nextDue, -, rfl⟩ := step
      exact still rfl
  | wake nowMs =>
      obtain ⟨sinceMs, wakeMs, -, -, rfl⟩ := step
      exact still rfl
  | close => exact still (by rw [step.2])
  | commit nowMs order =>
      obtain ⟨mode, store, ends, same⟩ := step.2.step.1
      rw [same] at joined
      exact (new (commit_joins (steady.sound.up (by rw [mode]; nofun)) ends joined)).elim
  | finish nowMs order =>
      obtain ⟨mode, store, ends, same⟩ := step.2.step.1
      rw [same] at joined
      exact (new (commit_joins (steady.sound.up (by rw [mode]; nofun)) ends joined)).elim

end Steps

/-! ## Runs -/

/-- **The brake pauses growth.** In every run the brake is on exactly if at some count since the
start `brakeOnCount` tasks or more were overdue, and more than `brakeOffCount` at all counts since.
It is counted before an apex league and the ladder are asked and at the start of a visit, and the
next count is how many tasks are overdue by the grace period or more, up to a cap. And whoever
joins the cohort by a step of the region joins while the brake is off, or from the list of the
first apex league. -/
theorem brake_pauses_growth {codecs : Codecs} {platforms : List String} {platform : String}
    {events : List RegionEvent} {now : Region}
    (run : Run (RegionStep codecs platforms platform) .fresh events now) :
    (now.braked = true ↔ ∃ before overdue after, now.counts = before ++ overdue :: after ∧
        brakeOnCount ≤ overdue ∧ ∀ later ∈ after, brakeOffCount < later) ∧
      (∀ nowMs told, now.Brakes platform nowMs told → told.counts = now.counts ++
        [min (brakeOnCount * 2) (overdueTasks platform nowMs now.crawl.store.tables)]) ∧
      ∀ event next, RegionStep codecs platforms platform now event next → event.own = true →
        ∀ pid ∈ next.crawl.store.ram.cohort, pid ∉ now.crawl.store.ram.cohort →
          now.braked = false ∨ ∃ nowS, now.stage = .listing 0 nowS := by
  have gated : now.Gated :=
    Region.invariant ⟨rfl, nofun, nofun⟩ (fun _ _ _ _ _ step held => step.gated held) run
  refine ⟨?_, fun nowMs told brakes => ?_, fun event next step own pid joined new => ?_⟩
  · rw [gated.told]
    exact hysteresis_iff (by decide) now.counts
  · obtain ⟨overdue, ends, rfl⟩ := brakes
    have counted := frontierOverdueCount_ends platform nowMs brakeOverdueGraceMs
      (show 0 < brakeOnCount * 2 by decide) now.crawl.store
    rw [(ends.unique counted).1]
    rfl
  · exact step.joins (Region.steady run) own gated joined new

/-! ## A page that is overdue -/

/-- So many players wait for long enough. -/
theorem length_le_overdueTasks {tables : Tables} {platform : String} {nowMs : Nat} {pids : List Nat}
    (distinct : pids.Nodup)
    (waits : ∀ pid ∈ pids, ∃ dueMs task, dueMs ≤ nowMs - brakeOverdueGraceMs ∧
      tables.frontier.get (platform, bucketPriority, dueMs, pid) = some task) :
    pids.length ≤ overdueTasks platform nowMs tables := by
  have inside : pids ⊆ (tables.due platform bucketPriority (nowMs - brakeOverdueGraceMs)).map
      fun entry => entry.1.2.2.2 := by
    intro pid member
    obtain ⟨dueMs, task, due, here⟩ := waits pid member
    exact List.mem_map.mpr ⟨((platform, bucketPriority, dueMs, pid), task),
      mem_due.mpr ⟨here, rfl, rfl, due⟩, rfl⟩
  have length := (List.Nodup.subperm distinct inside).length_le
  rw [List.length_map] at length
  exact length

/-- A batch of tasks of players who do not wait. -/
theorem pushedAll_waits {tables : Tables} (orderly : tables.Orderly) (platform : String)
    (nowMs : Nat) {items : List (Nat × FrontierTask)} (distinct : (items.map Prod.fst).Nodup)
    (absent : ∀ pid, tables.frontierIdx.get pid = none) {item : Nat × FrontierTask}
    (inside : item ∈ items) :
    Waits (items.foldl (Tables.pushed platform bucketPriority nowMs) tables) item.1
      ⟨platform, bucketPriority, nowMs⟩ item.2 := by
  have requeues := orderly.requeueAll nowMs (items.map fun item => (platform, item)) (by
    intro first one second two same
    obtain ⟨mine, here, rfl⟩ := List.mem_map.mp one
    obtain ⟨other, there, rfl⟩ := List.mem_map.mp two
    rw [List.inj_on_of_nodup_map distinct here there same])
  rw [List.foldl_map] at requeues
  exact requeues.added (platform, item) (List.mem_map.mpr ⟨item, inside, rfl⟩) (absent item.1)

/-- Whoever is enrolled where nobody waits is overdue after the grace period. -/
theorem enroll_overdue {platforms : List String} {platform : String}
    {entries : List (String × RankSnap)} {source nowMs newly laterMs : Nat} {state next : State}
    (sound : state.Sound platforms) (issued : Issued state.ram.players state.ram.nextPlayerId)
    (empty : state.tables.frontier.entries = []) (distinct : (entries.map Prod.fst).Nodup)
    (ends : Ends (enroll platform entries source nowMs) state newly next)
    (late : nowMs ≤ laterMs - brakeOverdueGraceMs) :
    entries.length ≤ overdueTasks platform laterMs next.tables := by
  obtain ⟨between, enrols⟩ := enroll_leaves sound ends
  have absent : ∀ pid, between.frontierIdx.get pid = none := by
    intro pid
    rw [Option.eq_none_iff_forall_ne_some]
    intro key index
    obtain ⟨task, here⟩ := enrols.orderly.paired.waiting pid key index
    have there := Table.get_eq_some.mp here
    rw [enrols.frontier, empty] at there
    cases there
  have length := length_assign state.ram (entries.map Prod.fst)
  have ids := nodup_assign issued distinct
  have firsts : (((state.ram.assign (entries.map Prod.fst)).2.1.zip (entries.map Prod.fst)).map
      fun player => (player.1, (⟨player.2, 0⟩ : FrontierTask))).map Prod.fst =
        (state.ram.assign (entries.map Prod.fst)).2.1 := by
    rw [List.map_map]
    exact List.map_fst_zip (Nat.le_of_eq length)
  have once := ids
  rw [← firsts] at once
  have waiting : (state.ram.assign (entries.map Prod.fst)).2.1.length ≤
      overdueTasks platform laterMs next.tables := by
    refine length_le_overdueTasks ids fun pid member => ?_
    rw [← firsts] at member
    obtain ⟨item, inside, rfl⟩ := List.mem_map.mp member
    have waits := pushedAll_waits enrols.orderly platform nowMs once absent inside
    rw [enrols.tables]
    exact ⟨nowMs, item.2, late, (waits.2 _ _ _).trans (if_pos rfl)⟩
  rwa [length, List.length_map] at waiting

/-- An apex league of this many players. -/
def crowd : List LeagueListEntry :=
  (List.range brakeOnCount).map fun n => ⟨String.ofList (List.replicate (n + 1) 'a'), 0, 0, 0⟩

/-- The players of the crowd. -/
theorem crowd_names : (apexEntries "CHALLENGER" crowd).map Prod.fst =
    (List.range brakeOnCount).map fun n => String.ofList (List.replicate (n + 1) 'a') := by
  have named : crowd.filter (fun entry => !entry.puuid.isEmpty) = crowd := by
    refine List.filter_eq_self.mpr fun entry inside => ?_
    obtain ⟨n, -, rfl⟩ := List.mem_map.mp inside
    simp [List.replicate_succ]
  rw [apexEntries, named, crowd, List.map_map, List.map_map]
  rfl

/-- Any page can be enrolled. -/
theorem enroll_returns (platform : String) (entries : List (String × RankSnap))
    (source nowMs : Nat) (state : State) :
    ∃ newly next, Ends (enroll platform entries source nowMs) state newly next := by
  have assigned := assignPlayerIds_ends (entries.map Prod.fst) state
  obtain ⟨_, batch⟩ := cohortAddBatch_ends (state.ram.assign (entries.map Prod.fst)).2.1 source
    nowMs _
  obtain ⟨pendingRanks, buffered⟩ := bufferRanks_ends nowMs
    ((state.ram.assign (entries.map Prod.fst)).2.1.zip (entries.map Prod.snd)) _
  obtain ⟨_, pushed⟩ := frontierPushBatch_ends platform bucketPriority nowMs
    (((state.ram.assign (entries.map Prod.fst)).2.1.zip (entries.map Prod.fst)).map
      fun player => (player.1, (⟨player.2, 0⟩ : FrontierTask))) _
  exact ⟨_, _, assigned.bind (batch.bind (buffered.bind (pushed.bind rfl)))⟩

/-- The crowd is enrolled, and the brake comes on before the second apex league. -/
theorem braked_reached : ∃ events now,
    Run (RegionStep shortCodecs ["EUW1"] "EUW1") .fresh events now ∧ now.braked = true := by
  obtain ⟨past, seeding⟩ := seeding_reached
  have asked : RegionStep shortCodecs ["EUW1"] "EUW1"
      (stopping firstStore false (.seeding 0 5) []) (.league 5000)
      (stopping firstStore false (.listing 0 5) [0]) := ⟨0, 5, rfl, _, ⟨0, rfl, rfl⟩, rfl⟩
  obtain ⟨newly, store, enrolled⟩ := enroll_returns "EUW1" (apexEntries "CHALLENGER" crowd)
    cohortSrcApex 5000 firstStore
  have sound : firstStore.Sound ["EUW1"] :=
    (Region.steady seeding).sound.up (by simp [stopping])
  have issued : Issued firstStore.ram.players firstStore.ram.nextPlayerId := ⟨nofun, nofun⟩
  obtain ⟨between, enrols⟩ := enroll_leaves sound enrolled
  have listed : RegionStep shortCodecs ["EUW1"] "EUW1"
      (stopping firstStore false (.listing 0 5) [0]) (.listed crowd 5000)
      (stopping store false (.seeding 1 5) [0]) :=
    ⟨0, 5, ("challengerleagues", "CHALLENGER"), rfl, rfl,
      ⟨⟨rfl, List.mem_singleton_self _, rfl, newly, store, enrolled, rfl⟩, .inl rfl⟩,
      .kept enrols.durable, rfl⟩
  have names : ((apexEntries "CHALLENGER" crowd).map Prod.fst).Nodup := by
    rw [crowd_names]
    refine List.Nodup.map (fun first second same => ?_) List.nodup_range
    have length := congrArg List.length (String.ofList_injective same)
    simpa using length
  have crowded : brakeOnCount ≤ overdueTasks "EUW1" 9000000 store.tables := by
    have overdue := enroll_overdue sound issued rfl names enrolled
      (show 5000 ≤ 9000000 - brakeOverdueGraceMs by decide)
    have length := congrArg List.length crowd_names
    rw [List.length_map, List.length_map, List.length_range] at length
    exact length ▸ overdue
  have counted := frontierOverdueCount_ends "EUW1" 9000000 brakeOverdueGraceMs
    (show 0 < brakeOnCount * 2 by decide) store
  have braked : ((stopping store false (.seeding 1 5) [0]).brake
      (min (brakeOnCount * 2) (overdueTasks "EUW1" 9000000 store.tables))).braked = true := by
    have enough : brakeOnCount ≤
        min (brakeOnCount * 2) (overdueTasks "EUW1" 9000000 store.tables) :=
      le_min (by decide) crowded
    simp [Region.brake, stopping, enough]
  have stepped : RegionStep shortCodecs ["EUW1"] "EUW1"
      (stopping store false (.seeding 1 5) [0]) (.league 9000000) _ :=
    ⟨1, 5, rfl, _, ⟨_, counted, rfl⟩, rfl⟩
  exact ⟨_, _, seeding.append (.cons asked (.cons listed (.cons stepped (.nil _)))), braked⟩

/-- With the crowd overdue the brake is on. -/
theorem brake_pauses_growth_crowd : ∃ events now,
    Run (RegionStep shortCodecs ["EUW1"] "EUW1") .fresh events now ∧ now.braked = true ∧
      (now.braked = true ↔ ∃ before overdue after, now.counts = before ++ overdue :: after ∧
        brakeOnCount ≤ overdue ∧ ∀ later ∈ after, brakeOffCount < later) ∧
      (∀ nowMs told, now.Brakes "EUW1" nowMs told → told.counts = now.counts ++
        [min (brakeOnCount * 2) (overdueTasks "EUW1" nowMs now.crawl.store.tables)]) ∧
      ∀ event next, RegionStep shortCodecs ["EUW1"] "EUW1" now event next → event.own = true →
        ∀ pid ∈ next.crawl.store.ram.cohort, pid ∉ now.crawl.store.ram.cohort →
          now.braked = false ∨ ∃ nowS, now.stage = .listing 0 nowS := by
  obtain ⟨events, now, run, braked⟩ := braked_reached
  exact ⟨events, now, run, braked, brake_pauses_growth run⟩

end LolCrawler.Server
