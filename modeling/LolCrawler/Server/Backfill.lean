import LolCrawler.Server.Crawler

/-! # Deep visits

`backfill` marks the queued cohort members for a visit of their whole history. The mark
is carried by the task: through the pop, the visit, and the push that ends it. It is lost
when a visit ends although the fetch of a match failed, when the player is enrolled
anew while the task is popped, and when a crash falls back to tables without the task.
In runs without these (`Spared`), a player whose task is no longer deep had a deep visit
that walked the list to its end, and every game of the list is seen.
-/

namespace LolCrawler.Server

open Foundation Segment Store

variable {codecs : Codecs} {platforms : List String}

/-! ## Sound states -/

/-- What holds in every run. -/
structure Crawl.Sound (platforms : List String) (crawl : Crawl) : Prop where
  up : crawl.mode ≠ .down → crawl.store.Sound platforms
  down : crawl.mode = .down →
    crawl.store.tables = crawl.store.durable ∧ crawl.store.durable.Sound
  idle : crawl.mode ≠ .serving → ∀ platform, crawl.visits platform = none
  regions : ∀ platform running, crawl.visits platform = some running →
    platform ∈ platforms ∧ running.visit.platform = platform ∧
      (running.checked = true ∨ running.visit.deep = true →
        running.visit.pid ∈ crawl.store.ram.cohort)

/-- The first start is sound. -/
theorem Crawl.Sound.fresh : Crawl.fresh.Sound platforms := by
  have empty : Tables.empty.Sound :=
    ⟨⟨⟨nofun, nofun, nofun⟩, nofun⟩, fun _ _ here _ => by
      obtain ⟨_, _, _, here⟩ := here
      cases here⟩
  exact ⟨fun up => (up rfl).elim, fun _ => ⟨rfl, empty⟩, fun _ _ => rfl, nofun⟩

section Sound

variable {crawl next : Crawl} {event : Event}

/-- A server with a visit under way is serving. -/
theorem Crawl.Sound.serving (sound : crawl.Sound platforms) {platform : String} {running : Running}
    (here : crawl.visits platform = some running) : crawl.mode = .serving := by
  by_contra away
  rw [sound.idle away platform] at here
  cases here

/-- A step of the store, while the regions stay as they are. -/
theorem Crawl.Sound.forward (sound : crawl.Sound platforms)
    (forward : Forward platforms crawl.store next.store) (up : next.mode ≠ .down)
    (visits : next.visits = crawl.visits) (mode : next.mode ≠ .serving → crawl.mode ≠ .serving) :
    next.Sound platforms where
  up _ := forward.sound
  down down := (up down).elim
  idle away := by
    rw [visits]
    exact sound.idle (mode away)
  regions platform running here := by
    rw [visits] at here
    obtain ⟨enabled, own, member⟩ := sound.regions platform running here
    exact ⟨enabled, own, fun either => forward.members _ (member either)⟩

/-- A step of the store, and of one region. -/
theorem Crawl.Sound.setVisit (sound : crawl.Sound platforms) {platform : String}
    {running : Option Running} {store : State} (forward : Forward platforms crawl.store store)
    (serving : crawl.mode = .serving)
    (new : ∀ after, running = some after → platform ∈ platforms ∧ after.visit.platform = platform ∧
      (after.checked = true ∨ after.visit.deep = true →
        after.visit.pid ∈ crawl.store.ram.cohort)) :
    (Crawl.setVisit { crawl with store := store } platform running).Sound platforms where
  up _ := forward.sound
  down down := by
    rw [show crawl.mode = .down from down] at serving
    cases serving
  idle away := (away serving).elim
  regions other after here := by
    rw [setVisit_visits] at here
    split at here
    · next same =>
        subst same
        obtain ⟨enabled, own, member⟩ := new after here
        exact ⟨enabled, own, fun either => forward.members _ (member either)⟩
    · obtain ⟨enabled, own, member⟩ := sound.regions other after here
      exact ⟨enabled, own, fun either => forward.members _ (member either)⟩

/-- The server is sound after the process has ended. -/
theorem Ended.sound {store : State} (ended : Ended store next) (durable : store.durable.Sound) :
    next.Sound platforms where
  up up := (up ended.mode).elim
  down _ := ⟨ended.tables.trans ended.durable.symm, ended.durable ▸ durable⟩
  idle _ platform := by rw [ended.visits]
  regions platform running here := by
    rw [ended.visits] at here
    cases here

/-- What a crash falls back to. -/
theorem Crawl.Sound.cut (sound : crawl.Sound platforms) {during : Option Call} {after : State}
    (cut : crawl.Cut codecs platforms during after) :
    after.durable.Sound ∧ ∀ platform ∈ platforms, ∀ gameId,
      seenIn crawl.store.durable.bitmaps platform gameId = true →
        seenIn after.durable.bitmaps platform gameId = true := by
  have here : crawl.store.durable.Sound := by
    by_cases down : crawl.mode = .down
    · exact (sound.down down).2
    · exact (sound.up down).durable
  cases during with
  | none =>
      cases cut
      exact ⟨here, fun _ _ _ seen => seen⟩
  | some call =>
      obtain ⟨mode, before, rest, run⟩ := cut
      by_cases opening : call = .openStore
      · subst opening
        obtain ⟨fallen, durable⟩ := sound.down mode.symm
        have same : after.durable = crawl.store.durable := by
          rcases (openStore_durable platforms crawl.store).error run with same | same
          · exact same
          · exact same.trans fallen
        rw [same]
        exact ⟨durable, fun _ _ _ seen => seen⟩
      · have up : crawl.mode ≠ .down := by
          rw [← mode]
          cases call with
          | openStore => exact (opening rfl).elim
          | _ => nofun
        have fallback := Call.fallback (sound.up up) opening run
        exact ⟨fallback.durable, fallback.saved⟩

/-- **Each step of the server** keeps it sound. -/
theorem CrawlStep.sound (step : CrawlStep codecs platforms crawl event next)
    (sound : crawl.Sound platforms) : next.Sound platforms := by
  cases event with
  | openStore =>
      obtain ⟨mode, store, ends, rfl⟩ := step
      obtain ⟨fallen, durable⟩ := sound.down mode
      have idle := sound.idle (by rw [mode]; nofun)
      refine ⟨fun _ => (openStore_sound durable fallen ends).1, nofun, fun _ => idle,
        fun platform running here => ?_⟩
      have none := idle platform
      rw [show crawl.visits platform = some running from here] at none
      cases none
  | reconcile nowMs =>
      obtain ⟨mode, count, store, ends, rfl⟩ := step
      have held := sound.up (by rw [mode]; nofun)
      obtain ⟨only, orderly, pushes⟩ := frontierReconcile_pushes held.tables.orderly ends
      refine sound.forward (held.push only orderly pushes fun pid task new deep => ?_) nofun rfl
        fun _ => by rw [mode]; nofun
      rw [new] at deep
      cases deep
  | backfill nowMs =>
      obtain ⟨mode, count, store, ends, rfl⟩ := step
      have held := sound.up (by rw [mode]; nofun)
      obtain ⟨only, orderly, -, rows⟩ := frontierBackfillReset_queued held.tables.orderly ends
      refine sound.forward (held.queue only orderly fun pid task here _ => ?_) nofun rfl
        fun away => (away rfl).elim
      exact (rows pid task here).elim (fun reset => .inr reset.1) fun kept => .inl kept.2
  | spawn =>
      obtain ⟨mode, rfl⟩ := step
      exact sound.forward (.refl (sound.up (by rw [mode]; nofun))) nofun rfl
        fun away => (away rfl).elim
  | popDue platform nowMs =>
      obtain ⟨mode, enabled, -, result, store, ends, rfl⟩ := step
      have held := sound.up (by rw [mode]; nofun)
      obtain ⟨only, orderly, popped, rows, -⟩ := frontierPopDue_pops held.tables.orderly ends
      refine sound.setVisit (held.queue only orderly fun pid task here _ =>
        .inl (rows pid task here)) mode fun after here => ?_
      obtain ⟨⟨bucket, pid, task⟩, found, rfl⟩ := Option.map_eq_some_iff.mp here
      refine ⟨enabled, rfl, fun either => ?_⟩
      rcases either with checked | deep
      · cases checked
      · exact (held.cohort pid).mpr (held.tables.members pid task (popped bucket pid task found)
          (decide_eq_true_eq.mp deep))
  | check platform =>
      obtain ⟨running, here, -, rfl⟩ := step
      have serving := sound.serving here
      have held := sound.up (by rw [serving]; nofun)
      refine sound.setVisit (.refl held) serving fun after new => ?_
      obtain ⟨enabled, own, -⟩ := sound.regions platform running here
      split at new
      · next member =>
          cases new
          exact ⟨enabled, own, fun _ => member⟩
      · cases new
  | visit platform event =>
      obtain ⟨running, here, checked, store, visit, step, rfl⟩ := step
      have serving := sound.serving here
      have held := sound.up (by rw [serving]; nofun)
      obtain ⟨enabled, own, member⟩ := sound.regions platform running here
      obtain ⟨forward, -, moved, -⟩ := visitStep_forward held (member (.inl checked)) step
      refine sound.setVisit forward serving fun after new => ?_
      unfold Running.next at new
      split at new
      · cases new
      · cases new
        refine ⟨enabled, ?_, fun _ => ?_⟩
        · rw [show visit = _ from moved]
          exact own
        · rw [show visit = _ from moved]
          exact member (.inl checked)
  | enroll platform entries source nowMs =>
      obtain ⟨mode, -, -, newly, store, ends, rfl⟩ := step
      have held := sound.up (by rw [mode]; nofun)
      exact sound.forward (enroll_forward held ends).1 (by rw [mode]; nofun) rfl fun away => away
  | snapshot pid tsMs snap =>
      obtain ⟨mode, store, ends, rfl⟩ := step
      have held := sound.up (by rw [mode]; nofun)
      cases ends
      exact sound.forward (held.rank _) (by rw [mode]; nofun) rfl fun away => away
  | commit nowMs order =>
      obtain ⟨mode, store, ends, rfl⟩ := step
      have held := sound.up (by rw [mode]; nofun)
      exact sound.forward (commit_forward codecs held ends).1 (by rw [mode]; nofun) rfl
        fun away => away
  | persist =>
      obtain ⟨mode, rfl⟩ := step
      have held := sound.up (by rw [mode]; nofun)
      exact sound.forward held.persist (by rw [mode]; nofun) rfl fun away => away
  | stop =>
      obtain ⟨mode, rfl⟩ := step
      exact sound.forward (.refl (sound.up (by rw [mode]; nofun))) (by rw [mode]; nofun) rfl
        fun away => away
  | exit nowMs order =>
      obtain ⟨mode, -, -, store, ends, ended⟩ := step
      have held := sound.up (by rw [mode]; nofun)
      exact ended.sound (commit_forward codecs held ends).1.sound.durable
  | crash during =>
      obtain ⟨store, cut, ended⟩ := step
      exact ended.sound (sound.cut cut).1

/-- Every reached server is sound. -/
theorem Crawl.Sound.reached {events : List Event}
    (run : Run (CrawlStep codecs platforms) Crawl.fresh events crawl) : crawl.Sound platforms :=
  run.invariant (Crawl.Sound platforms) (fun _ _ _ held step => step.sound held) .fresh

end Sound

/-! ## Watching one player -/

/-- A history of one player's deep visits. -/
structure Watch where
  /-- The lists that were walked to their end, with the platform of the visit. -/
  walked : List (String × List String)
  /-- A visit got every match of its list. -/
  ended : Bool
  /-- So did one before the bitmaps were last written. -/
  kept : Bool

/-- Nothing has been seen since the mark. -/
def Watch.new : Watch := ⟨[], false, false⟩

/-- The list of the player's deep visit, when this step completes it. -/
def walkOf (pid : Nat) (crawl : Crawl) (platform : String) : VisitEvent → Option (List String)
  | .list _ =>
      match crawl.visits platform with
      | some ⟨⟨_, who, task, .listing ids pageLen start⟩, _, _⟩ =>
          if who = pid && task.lastVisitMs = deepVisitMs &&
              !morePages true false crawl.store.ram ids pageLen start
          then some (ids.insertionSort (· ≤ ·)).dedup
          else none
      | _ => none
  | _ => none

/-- A deep visit of the player that has got every match of a complete list. -/
def Running.fetched (pid : Nat) (walked : List (String × List String)) (running : Running) : Bool :=
  match running.visit.phase with
  | .fetching ids [] =>
      running.visit.pid = pid && running.visit.deep && running.lost.isEmpty &&
        walked.contains (running.visit.platform, ids)
  | _ => false

def Watch.after (pid : Nat) (crawl : Crawl) (watch : Watch) (event : Event)
    (next : Crawl) : Watch :=
  match event with
  | .visit platform event =>
      let walked := ((walkOf pid crawl platform event).map fun ids => (platform, ids)).toList ++
        watch.walked
      { watch with
        walked := walked
        ended := watch.ended || (next.visits platform).any (Running.fetched pid walked) }
  | .commit .. => { watch with kept := watch.kept || watch.ended }
  | .exit .. => { watch with ended := watch.kept || watch.ended, kept := watch.kept || watch.ended }
  | .crash _ => { watch with ended := watch.kept }
  | _ => watch

/-- The step does not lose the mark of the player.

A deep visit that ends while the server runs has got every match. The player is not enrolled
while the task is popped. A crash falls back to tables with the deep task. Once a deep visit has
got every match, and for a crash once this has been written, nothing is asked. -/
def Spared (pid : Nat) (crawl : Crawl) (watch : Watch) (event : Event) (next : Crawl) : Prop :=
  match event with
  | .visit platform (.finish ..) => ∀ running, crawl.visits platform = some running →
      running.visit.pid = pid → running.visit.deep = true →
        crawl.stopped = true ∨ running.lost = []
  | .enroll _ entries _ _ => watch.ended = true ∨
      pid ∉ (crawl.store.ram.assign (entries.map Prod.fst)).2.1 ∨
      ∀ platform running, crawl.visits platform = some running → running.visit.pid ≠ pid
  | .crash _ => watch.kept = true ∨
      ∃ task, next.store.durable.Queued pid task ∧ task.lastVisitMs = deepVisitMs
  | _ => True

/-- A step that is watched. -/
def WatchedStep (codecs : Codecs) (platforms : List String) (pid : Nat) (now : Crawl × Watch)
    (event : Event) (next : Crawl × Watch) : Prop :=
  CrawlStep codecs platforms now.1 event next.1 ∧
    next.2 = now.2.after pid now.1 event next.1

/-- A step that is watched, and does not lose the mark. -/
def SparedStep (codecs : Codecs) (platforms : List String) (pid : Nat) (now : Crawl × Watch)
    (event : Event) (next : Crawl × Watch) : Prop :=
  WatchedStep codecs platforms pid now event next ∧ Spared pid now.1 now.2 event next.1

/-- The seen games: those of the memory, and while the server is down those of the disk. -/
def Crawl.isSeen (crawl : Crawl) (platform : String) (gameId : UInt64) : Bool :=
  if crawl.mode = .down then seenIn crawl.store.durable.bitmaps platform gameId
  else crawl.store.ram.isSeen platform gameId

def Crawl.seenId (crawl : Crawl) (matchId : String) : Bool :=
  (splitMatchId matchId).any fun (platform, num) => crawl.isSeen platform num

/-- Once the task of the player is not deep anymore, one of the walked lists is seen. -/
def Survived (pid : Nat) (now : Crawl × Watch) : Prop :=
  ∀ task, now.1.store.tables.Queued pid task → task.lastVisitMs ≠ deepVisitMs →
    ∃ walk ∈ now.2.walked, ∀ matchId ∈ walk.2, ownId walk.1 matchId = true →
      now.1.seenId matchId = true

/-! ## What holds after the mark -/

/-- Every game of the platform on a walked list is seen. -/
def AllSeen (seen : String → UInt64 → Bool) (walk : String × List String) : Prop :=
  ∀ matchId ∈ walk.2, ∀ num, splitMatchId matchId = some (walk.1, num) → seen walk.1 num = true

/-- One of the lists is seen. -/
def SomeSeen (seen : String → UInt64 → Bool) (walked : List (String × List String)) : Prop :=
  ∃ walk ∈ walked, AllSeen seen walk

/-- Where a deep visit of the player is with its list. -/
def Follows (walked : List (String × List String)) (stopped : Bool) (ram : Ram)
    (running : Running) : Prop :=
  match running.visit.phase with
  | .listed ids => (running.visit.platform, ids) ∈ walked ∨ stopped = true
  | .fetching ids left =>
      ((running.visit.platform, ids) ∈ walked ∨ stopped = true) ∧
        ∀ matchId ∈ ids, ∀ num, splitMatchId matchId = some (running.visit.platform, num) →
          ram.isSeen running.visit.platform num = true ∨ matchId ∈ left ∨ matchId ∈ running.lost
  | _ => True

/-- What holds of a marked player, along the steps that do not lose the mark. -/
structure Marked (platforms : List String) (pid : Nat) (crawl : Crawl) (watch : Watch) : Prop where
  walks : ∀ walk ∈ watch.walked, walk.1 ∈ platforms
  ended : watch.ended = true → crawl.mode ≠ .down →
    SomeSeen crawl.store.ram.isSeen watch.walked
  kept : watch.kept = true → SomeSeen (seenIn crawl.store.durable.bitmaps) watch.walked
  down : crawl.mode = .down → watch.ended = watch.kept
  task : ∀ task, crawl.store.tables.Queued pid task → task.lastVisitMs ≠ deepVisitMs →
    watch.ended = true
  somewhere : watch.ended = true ∨ (∃ task, crawl.store.tables.Queued pid task) ∨
    ∃ platform running, crawl.visits platform = some running ∧ running.visit.pid = pid
  flight : ∀ platform running, crawl.visits platform = some running → running.visit.pid = pid →
    running.visit.deep = false → watch.ended = true
  lists : ∀ platform running, crawl.visits platform = some running → running.visit.pid = pid →
    running.visit.deep = true → Follows watch.walked crawl.stopped crawl.store.ram running
  fetched : ∀ platform running, crawl.visits platform = some running →
    running.fetched pid watch.walked = true → watch.ended = true

section Seen

variable {seen seen' : String → UInt64 → Bool} {walked : List (String × List String)}

/-- Games that were seen are still seen. -/
theorem SomeSeen.mono (held : SomeSeen seen walked) (more : ∀ walk ∈ walked, ∀ num,
    seen walk.1 num = true → seen' walk.1 num = true) : SomeSeen seen' walked := by
  obtain ⟨walk, inside, all⟩ := held
  exact ⟨walk, inside, fun matchId there num split =>
    more walk inside num (all matchId there num split)⟩

/-- More walks do not matter. -/
theorem SomeSeen.append (held : SomeSeen seen walked) (new : List (String × List String)) :
    SomeSeen seen (new ++ walked) := by
  obtain ⟨walk, inside, all⟩ := held
  exact ⟨walk, List.mem_append_right _ inside, all⟩

/-- What a visit follows may be more. -/
theorem Follows.mono {stopped stopped' : Bool} {ram ram' : Ram} {running : Running}
    {walked' : List (String × List String)}
    (follows : Follows walked stopped ram running) (more : ∀ walk ∈ walked, walk ∈ walked')
    (later : stopped = true → stopped' = true)
    (seen : ∀ platform num, ram.isSeen platform num = true → ram'.isSeen platform num = true) :
    Follows walked' stopped' ram' running := by
  unfold Follows at follows ⊢
  split at follows
  · next phase => exact follows.imp (more _) later
  · next phase =>
      exact ⟨follows.1.imp (more _) later, fun matchId inside num split =>
        (follows.2 matchId inside num split).imp_left (seen _ _)⟩
  · trivial

end Seen

section Marked

variable {pid : Nat} {crawl next : Crawl} {watch : Watch}

/-- A step of the store, while the regions stay as they are. -/
theorem Marked.forward {allowed : Nat → FrontierTask → Prop}
    (marked : Marked platforms pid crawl watch)
    (forward : Forward platforms crawl.store next.store)
    (pushes : Pushes allowed crawl.store.tables next.store.tables)
    (up : crawl.mode ≠ .down) (up' : next.mode ≠ .down) (visits : next.visits = crawl.visits)
    (stopped : crawl.stopped = true → next.stopped = true)
    (fair : ∀ task, allowed pid task → (∀ other, ¬ crawl.store.tables.Queued pid other) →
      watch.ended = true) : Marked platforms pid next watch where
  walks := marked.walks
  ended ended _ := (marked.ended ended up).mono fun walk _ num => forward.seen walk.1 num
  kept kept := (marked.kept kept).mono fun walk inside num =>
    forward.saved walk.1 (marked.walks walk inside) num
  down down := (up' down).elim
  task task here normal := by
    rcases pushes.added pid task here with waited | ⟨none, new⟩
    · exact marked.task task waited normal
    · exact fair task new none
  somewhere := by
    rw [visits]
    refine marked.somewhere.imp_right (Or.imp_left ?_)
    rintro ⟨task, here⟩
    exact ⟨task, pushes.kept pid task here⟩
  flight platform running here := by
    rw [visits] at here
    exact marked.flight platform running here
  lists platform running here own deep := by
    rw [visits] at here
    exact (marked.lists platform running here own deep).mono (fun _ inside => inside) stopped
      forward.seen
  fetched platform running here := by
    rw [visits] at here
    exact marked.fetched platform running here

/-- A step that leaves the frontier and the regions as they are. -/
theorem Marked.still (marked : Marked platforms pid crawl watch)
    (forward : Forward platforms crawl.store next.store)
    (same : next.store.tables.frontier = crawl.store.tables.frontier)
    (up : crawl.mode ≠ .down) (up' : next.mode ≠ .down) (visits : next.visits = crawl.visits)
    (stopped : crawl.stopped = true → next.stopped = true) : Marked platforms pid next watch := by
  have pushes : Pushes (fun _ _ => False) crawl.store.tables next.store.tables := .of_frontier same
  exact marked.forward forward pushes up up' visits stopped fun _ new => new.elim

/-- No task of the player is put back, or the player is not out. -/
theorem Marked.queued (marked : Marked platforms pid crawl watch)
    (none : ∀ other, ¬ crawl.store.tables.Queued pid other)
    (home : ∀ platform running, crawl.visits platform = some running →
      running.visit.pid ≠ pid) : watch.ended = true := by
  rcases marked.somewhere with ended | ⟨task, here⟩ | ⟨platform, running, here, own⟩
  · exact ended
  · exact (none task here).elim
  · exact (home platform running here own).elim

/-- A player with a deep task is in the cohort. -/
theorem Marked.member (marked : Marked platforms pid crawl watch) (sound : crawl.Sound platforms)
    (up : crawl.mode ≠ .down) : watch.ended = true ∨ pid ∈ crawl.store.ram.cohort := by
  have held := sound.up up
  rcases marked.somewhere with ended | ⟨task, here⟩ | ⟨platform, running, here, own⟩
  · exact .inl ended
  · by_cases deep : task.lastVisitMs = deepVisitMs
    · exact .inr ((held.cohort pid).mpr (held.tables.members pid task here deep))
    · exact .inl (marked.task task here deep)
  · cases deep : running.visit.deep with
    | false => exact .inl (marked.flight platform running here own deep)
    | true => exact .inr (own ▸ (sound.regions platform running here).2.2 (.inr deep))

/-- The bitmaps are written. -/
theorem Marked.keep (marked : Marked platforms pid crawl watch) (up : crawl.mode ≠ .down)
    (saved : ∀ platform gameId, crawl.store.ram.isSeen platform gameId = true →
      seenIn crawl.store.durable.bitmaps platform gameId = true) :
    Marked platforms pid crawl { watch with kept := watch.kept || watch.ended } where
  walks := marked.walks
  ended := marked.ended
  kept either := by
    rcases Bool.or_eq_true_iff.mp either with kept | ended
    · exact marked.kept kept
    · exact (marked.ended ended up).mono fun _ _ _ => saved _ _
  down down := (up down).elim
  task := marked.task
  somewhere := marked.somewhere
  flight := marked.flight
  lists := marked.lists
  fetched := marked.fetched

/-- The process has ended, and the tables it falls back to have the deep task, or its games. -/
theorem Marked.end {store : State} {kept : Bool} (marked : Marked platforms pid crawl watch)
    (ended : Ended store next)
    (saved : kept = true → SomeSeen (seenIn store.durable.bitmaps) watch.walked)
    (task : ∀ task, store.durable.Queued pid task → task.lastVisitMs ≠ deepVisitMs → kept = true)
    (somewhere : kept = true ∨ ∃ task, store.durable.Queued pid task) :
    Marked platforms pid next { watch with ended := kept, kept := kept } where
  walks := marked.walks
  ended _ up := (up ended.mode).elim
  kept := by
    rw [ended.durable]
    exact saved
  down _ := rfl
  task := by
    rw [ended.tables]
    exact task
  somewhere := by
    rw [ended.tables]
    exact somewhere.imp_right .inl
  flight platform running here := by
    rw [ended.visits] at here
    cases here
  lists platform running here := by
    rw [ended.visits] at here
    cases here
  fetched platform running here := by
    rw [ended.visits] at here
    cases here

end Marked

/-! ## Steps of a visit -/

section Visits

variable {pid : Nat} {crawl next : Crawl} {watch : Watch} {platform : String}
  {running running' : Running} {event : VisitEvent} {store : State} {visit : Visit}

/-- A region that goes on has the same task. -/
theorem Running.next_eq (goes : running.next event visit = some running') :
    running'.visit = visit ∧ visit.phase ≠ .done ∧ running'.lost = running.givenUp event := by
  unfold Running.next at goes
  split at goes
  · cases goes
  · next alive =>
      cases goes
      exact ⟨rfl, alive, rfl⟩

/-- The list of a deep visit that runs to its end is noted. -/
theorem walkOf_list {ids : List String} {pageLen start : Nat} {rank : Option (Nat × RankSnap)}
    (here : crawl.visits platform = some running) (own : running.visit.pid = pid)
    (deep : running.visit.deep = true) (phase : running.visit.phase = .listing ids pageLen start)
    (ends : morePages true false crawl.store.ram ids pageLen start = false) :
    walkOf pid crawl platform (.list rank) = some (ids.insertionSort (· ≤ ·)).dedup := by
  obtain ⟨⟨name, who, task, _⟩, checked, lost⟩ := running
  simp only at own phase
  subst own phase
  have marker : task.lastVisitMs = deepVisitMs := decide_eq_true_eq.mp deep
  simp [walkOf, here, marker, ends]

/-- **A deep visit follows its list.** -/
theorem follows_step (here : crawl.visits platform = some running)
    (named : running.visit.platform = platform) (own : running.visit.pid = pid)
    (deep : running.visit.deep = true)
    (follows : Follows watch.walked crawl.stopped crawl.store.ram running)
    (seen : ∀ other num, crawl.store.ram.isSeen other num = true →
      store.ram.isSeen other num = true)
    (step : VisitStep codecs crawl.stopped ⟨crawl.store, running.visit⟩ event ⟨store, visit⟩)
    (goes : running.next event visit = some running') :
    Follows (((walkOf pid crawl platform event).map fun ids => (platform, ids)).toList ++
      watch.walked) crawl.stopped store.ram running' := by
  obtain ⟨same, alive, lost⟩ := Running.next_eq goes
  -- What is still to be done with a list whose first match has been dealt with.
  have fetched : ∀ {ids left : List String} {matchId : String},
      running.visit.phase = .fetching ids left →
      visit = running.visit.goTo (.fetching ids (left.erase matchId)) →
      (∀ other ∈ running.lost, other ∈ running'.lost) →
      (∀ num, splitMatchId matchId = some (running.visit.platform, num) →
        store.ram.isSeen running.visit.platform num = true ∨ matchId ∈ running'.lost) →
      Follows (((walkOf pid crawl platform event).map fun ids => (platform, ids)).toList ++
        watch.walked) crawl.stopped store.ram running' := by
    intro ids left matchId phase moved kept done
    unfold Follows at follows ⊢
    rw [phase] at follows
    rw [same, moved]
    obtain ⟨listed, rest⟩ := follows
    refine ⟨listed.imp_left (List.mem_append_right _), fun other inside num split => ?_⟩
    rcases rest other inside num split with before | waits | given
    · exact .inl (seen _ _ before)
    · by_cases first : other = matchId
      · subst first
        exact (done num split).imp_right .inr
      · exact .inr (.inl ((List.mem_erase_of_ne first).mpr waits))
    · exact .inr (.inr (kept other given))
  cases event with
  | page page =>
      cases phase : running.visit.phase with
      | awaiting ids start =>
          simp only [VisitStep, phase] at step
          cases step
          unfold Follows
          rw [same]
          trivial
      | _ =>
          simp only [VisitStep, phase] at step
  | pageFailed nowMs =>
      cases phase : running.visit.phase with
      | awaiting ids start =>
          simp only [VisitStep, phase] at step
          exact (alive (by rw [step.2]; rfl)).elim
      | _ =>
          simp only [VisitStep, phase] at step
  | nextPage =>
      cases phase : running.visit.phase with
      | listing ids pageLen start =>
          simp only [VisitStep, phase] at step
          obtain ⟨-, moved⟩ := step
          cases moved
          unfold Follows
          rw [same]
          trivial
      | _ =>
          simp only [VisitStep, phase] at step
  | list rank =>
      cases phase : running.visit.phase with
      | listing ids pageLen start =>
          simp only [VisitStep, phase] at step
          obtain ⟨ends, -, moved⟩ := step
          unfold Follows
          rw [same, moved]
          rw [deep] at ends
          cases stopped : crawl.stopped with
          | true => exact .inr rfl
          | false =>
              rw [stopped] at ends
              left
              rw [walkOf_list here own deep phase ends, ← named]
              exact List.mem_cons_self
      | _ =>
          simp only [VisitStep, phase] at step
  | select =>
      cases phase : running.visit.phase with
      | listed ids =>
          simp only [VisitStep, phase] at step
          cases step
          unfold Follows at follows ⊢
          rw [phase] at follows
          rw [same]
          refine ⟨follows.imp_left (List.mem_append_right _), fun matchId inside num split => ?_⟩
          have split' : splitMatchId matchId = some (running.visit.platform, num) := split
          cases there : crawl.store.ram.isSeen running.visit.platform num with
          | true => exact .inl there
          | false =>
              refine .inr (.inl (List.mem_filter.mpr ⟨inside, ?_⟩))
              simp [ownId, seenId, split', there]
      | _ =>
          simp only [VisitStep, phase] at step
  | skip matchId =>
      cases phase : running.visit.phase with
      | fetching ids left =>
          simp only [VisitStep, phase] at step
          obtain ⟨-, -, moved⟩ := step
          cases moved
          refine fetched phase rfl (fun other given => ?_) fun num _ => .inr ?_
          · rw [lost]
            exact List.mem_cons_of_mem _ given
          · rw [lost]
            exact List.mem_cons_self
      | _ =>
          simp only [VisitStep, phase] at step
  | fetchFailed matchId =>
      cases phase : running.visit.phase with
      | fetching ids left =>
          simp only [VisitStep, phase] at step
          obtain ⟨-, moved⟩ := step
          cases moved
          refine fetched phase rfl (fun other given => ?_) fun num _ => .inr ?_
          · rw [lost]
            exact List.mem_cons_of_mem _ given
          · rw [lost]
            exact List.mem_cons_self
      | _ =>
          simp only [VisitStep, phase] at step
  | mark matchId =>
      cases phase : running.visit.phase with
      | fetching ids left =>
          simp only [VisitStep, phase] at step
          obtain ⟨-, other, num, split, marked, moved⟩ := step
          refine fetched phase moved (fun other given => by rw [lost]; exact given)
            fun num' split' => .inl ?_
          rw [split, Option.some.injEq, Prod.mk.injEq] at split'
          obtain ⟨rfl, rfl⟩ := split'
          rw [(marked.unique (markSeen_ends .markSeen _ num crawl.store)).2]
          exact isSeen_mark.mpr (.inr rfl)
      | _ =>
          simp only [VisitStep, phase] at step
  | store matchId given clock failed =>
      cases phase : running.visit.phase with
      | fetching ids left =>
          simp only [VisitStep, phase] at step
          obtain ⟨-, split, -, -, -, ⟨adopted, between, stored, pushed⟩, moved⟩ := step
          refine fetched phase moved (fun other given => by rw [lost]; exact given)
            fun num' split' => .inl ?_
          rw [split, Option.some.injEq] at split'
          exact (stored_isSeen codecs stored pushed).mpr (.inr split'.symm)
      | _ =>
          simp only [VisitStep, phase] at step
  | finish nowMs dueMs =>
      cases phase : running.visit.phase with
      | fetching ids left =>
          cases left with
          | nil =>
              simp only [VisitStep, phase] at step
              exact (alive (by rw [step.2]; rfl)).elim
          | cons =>
              simp only [VisitStep, phase] at step
      | _ =>
          simp only [VisitStep, phase] at step

/-- A deep visit has fetched all that it is to fetch. -/
theorem fetched_iff {walked : List (String × List String)} :
    running.fetched pid walked = true ↔ ∃ ids, running.visit.phase = .fetching ids [] ∧
      running.visit.pid = pid ∧ running.visit.deep = true ∧ running.lost = [] ∧
      (running.visit.platform, ids) ∈ walked := by
  unfold Running.fetched
  split
  · next ids phase => simp [phase, and_assoc]
  · next other =>
      simp only [Bool.false_eq_true, false_iff]
      rintro ⟨ids, phase, -⟩
      exact other ids phase

/-- A list that was got is seen. -/
theorem Follows.seen {walked : List (String × List String)} {stopped : Bool} {ram : Ram}
    (follows : Follows walked stopped ram running) (fetched : running.fetched pid walked = true) :
    SomeSeen ram.isSeen walked := by
  obtain ⟨ids, phase, -, -, lost, inside⟩ := fetched_iff.mp fetched
  unfold Follows at follows
  rw [phase] at follows
  refine ⟨_, inside, fun matchId there num split => ?_⟩
  rcases follows.2 matchId there num split with seen | waits | given
  · exact seen
  · cases waits
  · rw [lost] at given
    cases given

/-- What a step of a visit queues is deep, or a deep visit has got its list. -/
theorem Marked.queues (marked : Marked platforms pid crawl watch) (sound : crawl.Sound platforms)
    (here : crawl.visits platform = some running) {task : FrontierTask}
    (step : VisitStep codecs crawl.stopped ⟨crawl.store, running.visit⟩ event ⟨store, visit⟩)
    (spared : Spared pid crawl watch (.visit platform event) next)
    (queues : Queues crawl.stopped ⟨crawl.store, running.visit⟩ event pid task)
    (normal : task.lastVisitMs ≠ deepVisitMs) : watch.ended = true := by
  have serving := sound.serving here
  cases event with
  | pageFailed nowMs =>
      obtain ⟨own, rfl⟩ := queues
      exact marked.flight platform running here own.symm (decide_eq_false normal)
  | store matchId given clock failed =>
      rcases marked.member sound (by rw [serving]; nofun) with ended | member
      · exact ended
      · exact (queues.1 member).elim
  | finish nowMs dueMs =>
      obtain ⟨own, last⟩ := queues
      cases deep : running.visit.deep with
      | false => exact marked.flight platform running here own.symm deep
      | true =>
          have going : crawl.stopped = false := by
            cases stopped : crawl.stopped with
            | false => rfl
            | true => exact (normal (by rw [last, deep, stopped]; rfl)).elim
          have lost : running.lost = [] := (spared running here own.symm deep).resolve_left
            (by rw [going]; nofun)
          have follows := marked.lists platform running here own.symm deep
          cases phase : running.visit.phase with
          | fetching ids left =>
              cases left with
              | nil =>
                  unfold Follows at follows
                  rw [phase, going] at follows
                  exact marked.fetched platform running here (fetched_iff.mpr
                    ⟨ids, phase, own.symm, deep, lost, follows.1.resolve_right nofun⟩)
              | cons => simp only [VisitStep, phase] at step
          | _ => simp only [VisitStep, phase] at step
  | _ => exact queues.elim

/-- **A step of a visit keeps the mark.** -/
theorem Marked.visitStep (marked : Marked platforms pid crawl watch)
    (sound : crawl.Sound platforms) (here : crawl.visits platform = some running)
    (checked : running.checked = true)
    (step : VisitStep codecs crawl.stopped ⟨crawl.store, running.visit⟩ event ⟨store, visit⟩)
    (moved : next = Crawl.setVisit { crawl with store := store } platform
    (running.next event visit))
    (spared : Spared pid crawl watch (.visit platform event) next) :
    Marked platforms pid next (watch.after pid crawl (.visit platform event) next) := by
  have serving := sound.serving here
  have up : crawl.mode ≠ .down := by rw [serving]; nofun
  obtain ⟨enabled, named, member⟩ := sound.regions platform running here
  obtain ⟨forward, pushes, same, done⟩ := visitStep_forward (sound.up up) (member (.inl checked))
    step
  have goes : ∀ {running'}, running.next event visit = some running' →
      running'.visit.platform = platform ∧ running'.visit.pid = running.visit.pid ∧
        running'.visit.deep = running.visit.deep := by
    intro running' new
    rw [(Running.next_eq new).1, show visit = _ from same]
    exact ⟨named, rfl, rfl⟩
  let new := ((walkOf pid crawl platform event).map fun ids => (platform, ids)).toList
  have visits : ∀ other, next.visits other =
      if other = platform then running.next event visit else crawl.visits other := by
    intro other
    rw [moved, setVisit_visits]
  have lists : ∀ other running', next.visits other = some running' → running'.visit.pid = pid →
      running'.visit.deep = true →
        Follows (new ++ watch.walked) crawl.stopped store.ram running' := by
    intro other running' there own deep
    rw [visits] at there
    split at there
    · obtain ⟨-, who, depth⟩ := goes there
      rw [who] at own
      rw [depth] at deep
      exact follows_step here named own deep (marked.lists platform running here own deep)
        forward.seen step there
    · exact (marked.lists other running' there own deep).mono
        (fun _ inside => List.mem_append_right _ inside) (fun held => held) forward.seen
  have ended : watch.ended = true →
      (watch.after pid crawl (.visit platform event) next).ended = true := fun ended =>
    Bool.or_eq_true_iff.mpr (.inl ended)
  have store' : next.store = store := by rw [moved]; rfl
  refine ⟨fun walk inside => ?_, fun gained _ => ?_, fun kept => ?_, fun down => ?_,
    fun task queued normal => ?_, ?_, fun other running' there own normal => ?_,
    fun other running' there own deep => ?_, fun other running' there fetched => ?_⟩
  · rcases List.mem_append.mp inside with first | before
    · obtain ⟨ids, -, rfl⟩ := Option.map_eq_some_iff.mp (Option.mem_toList.mp first)
      exact enabled
    · exact marked.walks walk before
  · rw [store']
    rcases Bool.or_eq_true_iff.mp gained with before | now
    · exact ((marked.ended before up).mono fun walk _ num => forward.seen walk.1 num).append new
    · rw [Option.any_eq_true] at now
      obtain ⟨running', there, fetched⟩ := now
      obtain ⟨_, _, own, deep, _⟩ := fetched_iff.mp fetched
      exact (lists platform running' there own deep).seen fetched
  · rw [store']
    exact ((marked.kept kept).mono fun walk inside num =>
      forward.saved walk.1 (marked.walks walk inside) num).append new
  · rw [moved] at down
    exact (up down).elim
  · rw [store'] at queued
    apply ended
    rcases pushes.added pid task queued with waited | ⟨-, queues⟩
    · exact marked.task task waited normal
    · exact marked.queues sound here step spared queues normal
  · rcases marked.somewhere with before | ⟨task, waits⟩ | ⟨other, running', there, own⟩
    · exact .inl (ended before)
    · rw [store']
      exact .inr (.inl ⟨task, pushes.kept pid task waits⟩)
    · by_cases region : other = platform
      · subst region
        rw [here, Option.some.injEq] at there
        subst there
        cases after : running.next event visit with
        | some later =>
            refine .inr (.inr ⟨other, later, ?_, ?_⟩)
            · rw [visits, if_pos rfl, after]
            · rw [(goes after).2.1, own]
        | none =>
            rw [store']
            right
            left
            rw [← own]
            apply done
            unfold Running.next at after
            split at after
            · next phase => exact phase
            · cases after
      · refine .inr (.inr ⟨other, running', ?_, own⟩)
        rw [visits, if_neg region, there]
  · rw [visits] at there
    apply ended
    split at there
    · obtain ⟨-, who, depth⟩ := goes there
      rw [who] at own
      rw [depth] at normal
      exact marked.flight platform running here own normal
    · exact marked.flight other running' there own normal
  · rw [store']
    have stopped : next.stopped = crawl.stopped := by rw [moved]; rfl
    rw [stopped]
    exact lists other running' there own deep
  · by_cases region : other = platform
    · subst region
      refine Bool.or_eq_true_iff.mpr (.inr ?_)
      rw [there]
      exact fetched
    · apply ended
      rw [visits, if_neg region] at there
      obtain ⟨ids, phase, own, deep, lost, inside⟩ := fetched_iff.mp fetched
      refine marked.fetched other running' there (fetched_iff.mpr ⟨ids, phase, own, deep, lost, ?_⟩)
      rcases List.mem_append.mp inside with first | before
      · obtain ⟨_, -, same⟩ := Option.map_eq_some_iff.mp (Option.mem_toList.mp first)
        have name := (sound.regions other running' there).2.1
        rw [Prod.mk.injEq, name] at same
        exact (region same.1.symm).elim
      · exact before

end Visits

/-! ## Runs -/

section Runs

variable {pid : Nat} {now next : Crawl × Watch} {event : Event}

/-- **A pop keeps the mark.** -/
theorem Marked.popped {crawl after : Crawl} {watch : Watch} {platform : String} {nowMs : Nat}
    {result : Option (Nat × Nat × FrontierTask)} {store : State}
    (marked : Marked platforms pid crawl watch) (sound : crawl.Sound platforms)
    (up : crawl.mode ≠ .down) (free : crawl.visits platform = none)
    (ends : Ends (frontierPopDue platform nowMs) crawl.store result store)
    (moved : after = Crawl.setVisit { crawl with store := store } platform
      (result.map fun (_, pid, task) => Running.started platform pid task)) :
    Marked platforms pid after watch := by
  have held := sound.up up
  obtain ⟨only, orderly, popped, rows, keeps⟩ := frontierPopDue_pops held.tables.orderly ends
  have forward := held.queue only orderly fun pid task here _ => .inl (rows pid task here)
  have visits : ∀ other, after.visits other = if other = platform then
      result.map fun (_, pid, task) => Running.started platform pid task
      else crawl.visits other := by
    intro other
    rw [moved, setVisit_visits]
  have store' : after.store = store := by rw [moved]; rfl
  have stopped : after.stopped = crawl.stopped := by rw [moved]; rfl
  have mode : after.mode = crawl.mode := by rw [moved]; rfl
  refine ⟨marked.walks, fun ended _ => ?_, fun kept => ?_, fun down => ?_,
    fun task queued normal => ?_, ?_, fun other running here own normal => ?_,
    fun other running here own deep => ?_, fun other running here fetched => ?_⟩
  · rw [store']
    exact (marked.ended ended up).mono fun walk _ num => forward.seen walk.1 num
  · rw [store']
    exact (marked.kept kept).mono fun walk inside num =>
      forward.saved walk.1 (marked.walks walk inside) num
  · exact (up (mode ▸ down)).elim
  · rw [store'] at queued
    exact marked.task task (rows pid task queued) normal
  · rw [store']
    rcases marked.somewhere with ended | ⟨task, queued⟩ | ⟨other, running, here, own⟩
    · exact .inl ended
    · rcases keeps pid task queued with waits | ⟨bucket, found⟩
      · exact .inr (.inl ⟨task, waits⟩)
      · refine .inr (.inr ⟨platform, Running.started platform pid task, ?_, rfl⟩)
        rw [visits, if_pos rfl, found]
        rfl
    · refine .inr (.inr ⟨other, running, ?_, own⟩)
      rw [visits, if_neg, here]
      rintro rfl
      rw [free] at here
      cases here
  · rw [visits] at here
    split at here
    · obtain ⟨⟨bucket, who, task⟩, found, rfl⟩ := Option.map_eq_some_iff.mp here
      have same : who = pid := own
      subst same
      exact marked.task task (popped bucket who task found) (of_decide_eq_false normal)
    · exact marked.flight other running here own normal
  · rw [store', stopped]
    rw [visits] at here
    split at here
    · obtain ⟨entry, -, rfl⟩ := Option.map_eq_some_iff.mp here
      trivial
    · exact (marked.lists other running here own deep).mono (fun _ inside => inside)
        (fun held => held) forward.seen
  · rw [visits] at here
    split at here
    · obtain ⟨entry, -, rfl⟩ := Option.map_eq_some_iff.mp here
      cases fetched
    · exact marked.fetched other running here fetched

/-- **The look into the cohort keeps the mark.** -/
theorem Marked.checked {crawl after : Crawl} {watch : Watch} {platform : String}
    {running : Running} (marked : Marked platforms pid crawl watch)
    (sound : crawl.Sound platforms) (here : crawl.visits platform = some running)
    (moved : after = crawl.setVisit platform
      (if running.visit.pid ∈ crawl.store.ram.cohort then some { running with checked := true }
        else none)) :
    Marked platforms pid after watch := by
  have visits : ∀ other found, after.visits other = some found →
      ∃ before, crawl.visits other = some before ∧ found.visit = before.visit ∧
        found.lost = before.lost := by
    intro other found there
    rw [moved, setVisit_visits] at there
    split at there
    · next same =>
        subst same
        split at there
        · cases there
          exact ⟨running, here, rfl, rfl⟩
        · cases there
    · exact ⟨found, there, rfl, rfl⟩
  have store : after.store = crawl.store := by rw [moved]; rfl
  have stopped : after.stopped = crawl.stopped := by rw [moved]; rfl
  have mode : after.mode = crawl.mode := by rw [moved]; rfl
  refine ⟨marked.walks, ?_, ?_, ?_, ?_, ?_, fun other found there own normal => ?_,
    fun other found there own deep => ?_, fun other found there fetched => ?_⟩
  · rw [store, mode]
    exact marked.ended
  · rw [store]
    exact marked.kept
  · rw [mode]
    exact marked.down
  · rw [store]
    exact marked.task
  · rw [store]
    rcases marked.somewhere with ended | queued | ⟨other, found, there, own⟩
    · exact .inl ended
    · exact .inr (.inl queued)
    · by_cases region : other = platform
      · subst region
        rw [here, Option.some.injEq] at there
        subst there
        cases deep : running.visit.deep with
        | false => exact .inl (marked.flight other running here own deep)
        | true =>
            have member := (sound.regions other running here).2.2 (.inr deep)
            refine .inr (.inr ⟨other, { running with checked := true }, ?_, own⟩)
            rw [moved, setVisit_visits, if_pos rfl, if_pos member]
      · refine .inr (.inr ⟨other, found, ?_, own⟩)
        rw [moved, setVisit_visits, if_neg region, there]
  · obtain ⟨before, waited, same, -⟩ := visits other found there
    rw [same] at own normal
    exact marked.flight other before waited own normal
  · obtain ⟨before, waited, same, lost⟩ := visits other found there
    rw [same] at own deep
    have follows := marked.lists other before waited own deep
    unfold Follows at follows ⊢
    rw [store, stopped, same, lost]
    exact follows
  · obtain ⟨before, waited, same, lost⟩ := visits other found there
    rw [fetched_iff, same, lost, ← fetched_iff] at fetched
    exact marked.fetched other before waited fetched

/-- **One step keeps the mark.** -/
theorem SparedStep.marked (step : SparedStep codecs platforms pid now event next)
    (sound : now.1.Sound platforms) (marked : Marked platforms pid now.1 now.2) :
    Marked platforms pid next.1 next.2 := by
  obtain ⟨crawl, watch⟩ := now
  obtain ⟨after, watch'⟩ := next
  obtain ⟨⟨step, watched⟩, spared⟩ := step
  simp only at step watched spared sound marked ⊢
  subst watched
  cases event with
  | openStore =>
      obtain ⟨mode, store, ends, rfl⟩ := step
      obtain ⟨fallen, durable⟩ := sound.down mode
      obtain ⟨held, tables, same⟩ := openStore_sound durable fallen ends
      refine ⟨marked.walks, fun ended _ => ?_, ?_, nofun, ?_, ?_, marked.flight,
        fun platform running here own deep => ?_, marked.fetched⟩
      · have kept : watch.kept = true := (marked.down mode).symm.trans ended
        refine (marked.kept kept).mono fun walk inside num seen => ?_
        rw [← same] at seen
        exact held.saved walk.1 (marked.walks walk inside) num seen
      · rw [show ({ crawl with store := store, mode := Mode.opened } : Crawl).store.durable =
          crawl.store.durable from same]
        exact marked.kept
      · rw [show ({ crawl with store := store, mode := Mode.opened } : Crawl).store.tables =
          crawl.store.tables from tables]
        exact marked.task
      · rw [show ({ crawl with store := store, mode := Mode.opened } : Crawl).store.tables =
          crawl.store.tables from tables]
        exact marked.somewhere
      · have none := sound.idle (by rw [mode]; nofun) platform
        rw [show crawl.visits platform = some running from here] at none
        cases none
  | reconcile nowMs =>
      obtain ⟨mode, count, store, ends, rfl⟩ := step
      have up : crawl.mode ≠ .down := by rw [mode]; nofun
      have held := sound.up up
      obtain ⟨only, orderly, pushes⟩ := frontierReconcile_pushes held.tables.orderly ends
      have forward := held.push only orderly pushes fun pid task new deep => by
        rw [new] at deep
        cases deep
      refine marked.forward forward pushes up nofun rfl (fun held => held) fun _ _ none =>
        marked.queued none fun platform running here => ?_
      rw [sound.idle (by rw [mode]; nofun) platform] at here
      cases here
  | backfill nowMs =>
      obtain ⟨mode, count, store, ends, rfl⟩ := step
      have up : crawl.mode ≠ .down := by rw [mode]; nofun
      have held := sound.up up
      have idle : ∀ platform, crawl.visits platform = none := sound.idle (by rw [mode]; nofun)
      obtain ⟨only, orderly, keeps, rows⟩ := frontierBackfillReset_queued held.tables.orderly ends
      have forward := held.queue only orderly fun pid task here _ =>
        (rows pid task here).elim (fun reset => .inr reset.1) fun kept => .inl kept.2
      have none : ∀ platform running, crawl.visits platform ≠ some running := by
        intro platform running here
        rw [idle platform] at here
        cases here
      refine ⟨marked.walks, fun ended _ => (marked.ended ended up).mono fun walk _ num =>
        forward.seen walk.1 num, fun kept => (marked.kept kept).mono fun walk inside num =>
        forward.saved walk.1 (marked.walks walk inside) num, nofun, fun task here normal => ?_, ?_,
        fun platform running here => (none platform running here).elim,
        fun platform running here => (none platform running here).elim,
        fun platform running here => (none platform running here).elim⟩
      · rcases rows pid task here with ⟨-, deep⟩ | ⟨-, before⟩
        · exact (normal deep).elim
        · exact marked.task task before normal
      · rcases marked.somewhere with ended | queued | ⟨platform, running, here, -⟩
        · exact .inl ended
        · exact .inr (.inl (keeps pid queued))
        · exact (none platform running here).elim
  | spawn =>
      obtain ⟨mode, rfl⟩ := step
      have up : crawl.mode ≠ .down := by rw [mode]; nofun
      exact marked.still (.refl (sound.up up)) rfl up nofun rfl fun held => held
  | popDue platform nowMs =>
      obtain ⟨mode, enabled, free, result, store, ends, moved⟩ := step
      have up : crawl.mode ≠ .down := by rw [mode]; nofun
      exact marked.popped sound up free ends moved
  | check platform =>
      obtain ⟨running, here, -, moved⟩ := step
      exact marked.checked sound here moved
  | visit platform event =>
      obtain ⟨running, here, checked, store, visit, step, moved⟩ := step
      exact marked.visitStep sound here checked step moved spared
  | enroll platform entries source nowMs =>
      obtain ⟨mode, -, -, newly, store, ends, rfl⟩ := step
      have up : crawl.mode ≠ .down := by rw [mode]; nofun
      obtain ⟨forward, pushes⟩ := enroll_forward (sound.up up) ends
      refine marked.forward forward pushes up up rfl (fun held => held) fun _ new none => ?_
      rcases spared with ended | outside | home
      · exact ended
      · exact (outside new.1).elim
      · exact marked.queued none home
  | snapshot pid' tsMs snap =>
      obtain ⟨mode, store, ends, rfl⟩ := step
      have up : crawl.mode ≠ .down := by rw [mode]; nofun
      cases ends
      exact marked.still ((sound.up up).rank _) rfl up up rfl fun held => held
  | commit nowMs order =>
      obtain ⟨mode, store, ends, rfl⟩ := step
      have up : crawl.mode ≠ .down := by rw [mode]; nofun
      obtain ⟨forward, same, saved⟩ := commit_forward codecs (sound.up up) ends
      have stepped : Marked platforms pid { crawl with store := store } watch :=
        marked.still forward same up up rfl fun held => held
      exact stepped.keep up saved
  | persist =>
      obtain ⟨mode, rfl⟩ := step
      have up : crawl.mode ≠ .down := by rw [mode]; nofun
      exact marked.still (sound.up up).persist rfl up up rfl fun held => held
  | stop =>
      obtain ⟨mode, rfl⟩ := step
      have up : crawl.mode ≠ .down := by rw [mode]; nofun
      exact marked.still (.refl (sound.up up)) rfl up up rfl fun _ => rfl
  | exit nowMs order =>
      obtain ⟨mode, -, idle, store, ends, ended⟩ := step
      have up : crawl.mode ≠ .down := by rw [mode]; nofun
      obtain ⟨forward, same, saved⟩ := commit_forward codecs (sound.up up) ends
      have durable := (commit_durable codecs ends).1
      have stepped : Marked platforms pid { crawl with store := store } watch :=
        marked.still forward same up up rfl fun held => held
      refine (stepped.keep up saved).end ended (stepped.keep up saved).kept
        (fun task here normal => ?_) ?_
      · exact Bool.or_eq_true_iff.mpr
          (.inr (marked.task task ((queued_congr durable).mp here) normal))
      · rcases marked.somewhere with done | ⟨task, here⟩ | ⟨platform, running, here, -⟩
        · exact .inl (Bool.or_eq_true_iff.mpr (.inr done))
        · exact .inr ⟨task, (queued_congr durable).mpr here⟩
        · rw [idle platform] at here
          cases here
  | crash during =>
      obtain ⟨store, cut, ended⟩ := step
      obtain ⟨durable, saved⟩ := sound.cut cut
      have spared' : watch.kept = true ∨
          ∃ task, store.durable.Queued pid task ∧ task.lastVisitMs = deepVisitMs := by
        rw [← ended.durable]
        exact spared
      refine marked.end ended (fun kept => (marked.kept kept).mono fun walk inside num =>
        saved walk.1 (marked.walks walk inside) num) (fun task here normal => ?_) ?_
      · rcases spared' with kept | ⟨deep, there, marker⟩
        · exact kept
        · rw [durable.orderly.paired.queued_unique here there] at normal
          exact (normal marker).elim
      · exact spared'.imp_right fun ⟨task, here, _⟩ => ⟨task, here⟩

/-- The mark, on a player who waits. -/
theorem Marked.new {crawl marked : Crawl} {nowMs : Nat} {task : FrontierTask}
    (sound : crawl.Sound platforms) (member : pid ∈ crawl.store.ram.cohort)
    (queued : crawl.store.tables.Queued pid task)
    (step : CrawlStep codecs platforms crawl (.backfill nowMs) marked) :
    Marked platforms pid marked .new := by
  obtain ⟨mode, count, store, ends, rfl⟩ := step
  have held := sound.up (by rw [mode]; nofun)
  obtain ⟨-, -, keeps, rows⟩ := frontierBackfillReset_queued held.tables.orderly ends
  have idle : ∀ platform running, crawl.visits platform ≠ some running := by
    intro platform running here
    rw [sound.idle (by rw [mode]; nofun) platform] at here
    cases here
  exact ⟨nofun, nofun, nofun, nofun, fun task here normal =>
      (rows pid task here).elim (fun deep => (normal deep.2).elim) fun kept => (kept.1 member).elim,
    .inr (.inl (keeps pid ⟨task, queued⟩)),
    fun platform running here => (idle platform running here).elim,
    fun platform running here => (idle platform running here).elim,
    fun platform running here => (idle platform running here).elim⟩

/-- A list that is seen, in the words of the match ids. -/
theorem AllSeen.ownId {crawl : Crawl} {walk : String × List String}
    (seen : AllSeen crawl.isSeen walk) :
    ∀ matchId ∈ walk.2, ownId walk.1 matchId = true → crawl.seenId matchId = true := by
  intro matchId inside own
  obtain ⟨⟨platform, num⟩, split, same⟩ := (Option.any_eq_true _ _).mp own
  have named : platform = walk.1 := decide_eq_true_eq.mp same
  subst named
  exact (Option.any_eq_true _ _).mpr ⟨_, split, seen matchId inside num split⟩

/-- Who is marked has survived. -/
theorem Marked.survived (marked : Marked platforms pid now.1 now.2) : Survived pid now := by
  intro task queued normal
  have ended := marked.task task queued normal
  have some : SomeSeen now.1.isSeen now.2.walked := by
    by_cases down : now.1.mode = .down
    · refine (marked.kept ((marked.down down).symm.trans ended)).mono fun walk _ num seen => ?_
      simpa only [Crawl.isSeen, if_pos down] using seen
    · refine (marked.ended ended down).mono fun walk _ num seen => ?_
      simpa only [Crawl.isSeen, if_neg down] using seen
  obtain ⟨walk, inside, all⟩ := some
  exact ⟨walk, inside, all.ownId⟩

/-- **A deep visit survives until it is complete.** In a run whose steps do not lose the mark, a
player whose task is not deep anymore had a deep visit that walked the list to its end, and every
game of the platform on it is seen. -/
theorem deep_visits_survive (codecs : Codecs) (platforms : List String) (pid : Nat)
    {past : List Event} {crawl marked : Crawl} {nowMs : Nat} {task : FrontierTask}
    (reached : Run (CrawlStep codecs platforms) .fresh past crawl)
    (member : pid ∈ crawl.store.ram.cohort) (queued : crawl.store.tables.Queued pid task)
    (reset : CrawlStep codecs platforms crawl (.backfill nowMs) marked)
    {events : List Event} {final : Crawl × Watch}
    (run : Run (SparedStep codecs platforms pid) (marked, .new) events final) :
    Survived pid final := by
  have sound := Crawl.Sound.reached reached
  have start : marked.Sound platforms ∧ Marked platforms pid marked .new :=
    ⟨reset.sound sound, .new sound member queued reset⟩
  have held := run.invariant
    (fun now : Crawl × Watch => now.1.Sound platforms ∧ Marked platforms pid now.1 now.2)
    (fun _ _ _ held step => ⟨step.1.1.sound held.1, step.marked held.1 held.2⟩) start
  exact held.2.survived

end Runs

/-! ## A deep visit that is lost, and one that is not -/

def sampleRank : RankSnap := ⟨"GOLD", "II", 1, 2, 3⟩

/-- The store of the first start. -/
def firstStore : State := { State.empty with ram := Ram.load ["EUW1"] .empty }

/-- The store once the player is enrolled. -/
def enrolledStore : State := (enroll "EUW1" [("a", sampleRank)] 0 5 ⟨firstStore, .never⟩).2.state

/-- The store of the second start. -/
def reopenedStore : State :=
  { enrolledStore with
    durable := enrolledStore.tables
    working := enrolledStore.tables
    ram := Ram.load ["EUW1"] enrolledStore.tables }

/-- The store once the player is marked. -/
def markedStore : State := (frontierBackfillReset 7 ⟨reopenedStore, .never⟩).2.state

/-- The store while the player is visited. -/
def visitedStore : State := (frontierPopDue "EUW1" 7 ⟨markedStore, .never⟩).2.state

def deepVisit (phase : Phase) : Visit := ⟨"EUW1", 1, ⟨"a", deepVisitMs⟩, phase⟩

/-- The region at a phase of the deep visit. -/
def deepCrawl (store : State) (checked : Bool) (phase : Phase) (lost : List String) : Crawl :=
  Crawl.setVisit ⟨store, .serving, false, fun _ => none⟩ "EUW1"
    (some ⟨deepVisit phase, checked, lost⟩)

/-- The region is on its deep visit. -/
theorem deepCrawl_visits (store : State) (checked : Bool) (phase : Phase) (lost : List String) :
    (deepCrawl store checked phase lost).visits "EUW1" = some ⟨deepVisit phase, checked, lost⟩ := by
  rw [deepCrawl, setVisit_visits, if_pos rfl]

/-- The region goes on. -/
theorem deepCrawl_goes {store store' : State} {checked checked' : Bool} {phase phase' : Phase}
    {lost lost' : List String} :
    deepCrawl store' checked' phase' lost' =
      Crawl.setVisit { deepCrawl store checked phase lost with store := store' } "EUW1"
        (some ⟨deepVisit phase', checked', lost'⟩) := by
  simp only [deepCrawl, Crawl.setVisit, Function.update_idem]

/-- A step of the deep visit. -/
theorem deepCrawl_step {store store' : State} {phase phase' : Phase} {lost : List String}
    {event : VisitEvent} (alive : phase' ≠ .done)
    (step : VisitStep shortCodecs false ⟨store, deepVisit phase⟩ event ⟨store', deepVisit phase'⟩) :
    CrawlStep shortCodecs ["EUW1"] (deepCrawl store true phase lost) (.visit "EUW1" event)
      (deepCrawl store' true phase'
        (Running.givenUp ⟨deepVisit phase, true, lost⟩ event)) := by
  refine ⟨_, deepCrawl_visits store true phase lost, rfl, store', deepVisit phase', step, ?_⟩
  exact deepCrawl_goes.trans (congrArg _ (if_neg alive).symm)

/-- The second start is reached. -/
theorem reopened_reached : ∃ past, Run (CrawlStep shortCodecs ["EUW1"]) .fresh past
    ⟨reopenedStore, .ready, false, fun _ => none⟩ := by
  have enrolled : Ends (enroll "EUW1" [("a", sampleRank)] 0 5) firstStore 1 enrolledStore :=
    .of_eq (by decide +kernel) (by decide +kernel)
  have reconciled : ∀ nowMs store, Tables.stranded store.tables = [] →
      Ends (frontierReconcile ["EUW1"] nowMs) store 0 store := by
    intro nowMs store none
    refine Ends.bind rfl (Ends.bind rfl (Ends.bind rfl (Ends.bind rfl ?_)))
    simp only [id_eq, none]
    rfl
  have opened : CrawlStep shortCodecs ["EUW1"] .fresh .openStore
      ⟨firstStore, .opened, false, fun _ => none⟩ := ⟨rfl, _, rfl, rfl⟩
  have ready : CrawlStep shortCodecs ["EUW1"] ⟨firstStore, .opened, false, fun _ => none⟩
      (.reconcile 4) ⟨firstStore, .ready, false, fun _ => none⟩ :=
    ⟨rfl, 0, _, reconciled 4 _ rfl, rfl⟩
  have spawned : CrawlStep shortCodecs ["EUW1"] ⟨firstStore, .ready, false, fun _ => none⟩ .spawn
      ⟨firstStore, .serving, false, fun _ => none⟩ := ⟨rfl, rfl⟩
  have listed : CrawlStep shortCodecs ["EUW1"] ⟨firstStore, .serving, false, fun _ => none⟩
      (.enroll "EUW1" [("a", sampleRank)] 0 5) ⟨enrolledStore, .serving, false, fun _ => none⟩ :=
    ⟨rfl, List.mem_singleton_self _, rfl, 1, _, enrolled, rfl⟩
  have saved : CrawlStep shortCodecs ["EUW1"] ⟨enrolledStore, .serving, false, fun _ => none⟩
      .persist ⟨{ enrolledStore with durable := enrolledStore.tables }, .serving, false,
        fun _ => none⟩ := ⟨rfl, rfl⟩
  have crashed : CrawlStep shortCodecs ["EUW1"]
      ⟨{ enrolledStore with durable := enrolledStore.tables }, .serving, false, fun _ => none⟩
      (.crash none) ⟨{ enrolledStore with durable := enrolledStore.tables, ram := .empty }, .down,
        false, fun _ => none⟩ := ⟨_, rfl, rfl, rfl, rfl, rfl, rfl, rfl⟩
  have reopened : CrawlStep shortCodecs ["EUW1"]
      ⟨{ enrolledStore with durable := enrolledStore.tables, ram := .empty }, .down, false,
        fun _ => none⟩ .openStore ⟨reopenedStore, .opened, false, fun _ => none⟩ :=
    ⟨rfl, _, rfl, rfl⟩
  have again : CrawlStep shortCodecs ["EUW1"] ⟨reopenedStore, .opened, false, fun _ => none⟩
      (.reconcile 6) ⟨reopenedStore, .ready, false, fun _ => none⟩ :=
    ⟨rfl, 0, _, reconciled 6 _ (by decide +kernel), rfl⟩
  exact ⟨_, .cons opened (.cons ready (.cons spawned (.cons listed (.cons saved (.cons crashed
    (.cons reopened (.cons again (.nil _))))))))⟩

/-- The player is a member. -/
theorem reopened_member : 1 ∈ reopenedStore.ram.cohort := by decide +kernel

/-- The player is queued. -/
theorem reopened_queued : reopenedStore.tables.Queued 1 ⟨"a", 0⟩ :=
  ⟨"EUW1", bucketPriority, 5, by decide +kernel⟩

/-- The player is marked. -/
theorem reopened_marked : CrawlStep shortCodecs ["EUW1"]
    ⟨reopenedStore, .ready, false, fun _ => none⟩ (.backfill 7)
    ⟨markedStore, .serving, false, fun _ => none⟩ :=
  ⟨rfl, 1, _, .of_eq (by decide +kernel) (by decide +kernel), rfl⟩

/-- The visit up to its first match. -/
def deepEvents : List Event :=
  [.popDue "EUW1" 7, .check "EUW1", .visit "EUW1" (.page ["EUW1_7"]), .visit "EUW1" (.list none),
    .visit "EUW1" .select]

/-- The list is there, and its match is to be fetched. -/
theorem marked_fetches : Run (SparedStep shortCodecs ["EUW1"] 1)
    (⟨markedStore, .serving, false, fun _ => none⟩, .new) deepEvents
    (deepCrawl visitedStore true (.fetching ["EUW1_7"] ["EUW1_7"]) [],
      ⟨[("EUW1", ["EUW1_7"])], false, false⟩) := by
  have new : newIds "EUW1" visitedStore.ram ["EUW1_7"] = ["EUW1_7"] := by decide +kernel
  have member : 1 ∈ visitedStore.ram.cohort := by decide +kernel
  have popped : SparedStep shortCodecs ["EUW1"] 1
      (⟨markedStore, .serving, false, fun _ => none⟩, .new) (.popDue "EUW1" 7)
      (deepCrawl visitedStore false (.awaiting [] 0) [], .new) :=
    ⟨⟨⟨rfl, List.mem_singleton_self _, rfl, some (0, 1, ⟨"a", deepVisitMs⟩), _,
      .of_eq (by decide +kernel) (by decide +kernel), rfl⟩, rfl⟩, trivial⟩
  have checked : SparedStep shortCodecs ["EUW1"] 1
      (deepCrawl visitedStore false (.awaiting [] 0) [], .new) (.check "EUW1")
      (deepCrawl visitedStore true (.awaiting [] 0) [], .new) :=
    ⟨⟨⟨_, deepCrawl_visits visitedStore false (.awaiting [] 0) [], rfl,
      deepCrawl_goes.trans (congrArg _ (if_pos member).symm)⟩, rfl⟩, trivial⟩
  have paged : SparedStep shortCodecs ["EUW1"] 1
      (deepCrawl visitedStore true (.awaiting [] 0) [], .new) (.visit "EUW1" (.page ["EUW1_7"]))
      (deepCrawl visitedStore true (.listing ["EUW1_7"] 1 100) [], .new) :=
    ⟨⟨deepCrawl_step nofun rfl, rfl⟩, trivial⟩
  have listed : SparedStep shortCodecs ["EUW1"] 1
      (deepCrawl visitedStore true (.listing ["EUW1_7"] 1 100) [], .new)
      (.visit "EUW1" (.list none)) (deepCrawl visitedStore true (.listed ["EUW1_7"]) [],
        ⟨[("EUW1", ["EUW1_7"])], false, false⟩) :=
    ⟨⟨deepCrawl_step nofun ⟨rfl, rfl, rfl⟩, rfl⟩, trivial⟩
  have selected : SparedStep shortCodecs ["EUW1"] 1
      (deepCrawl visitedStore true (.listed ["EUW1_7"]) [], ⟨[("EUW1", ["EUW1_7"])], false, false⟩)
      (.visit "EUW1" .select) (deepCrawl visitedStore true (.fetching ["EUW1_7"] ["EUW1_7"]) [],
        ⟨[("EUW1", ["EUW1_7"])], false, false⟩) := by
    refine ⟨⟨deepCrawl_step nofun ?_, rfl⟩, trivial⟩
    rw [← new]
    rfl
  exact .cons popped (.cons checked (.cons paged (.cons listed (.cons selected (.nil _)))))

/-- The store when the visit has ended. -/
def finishedStore (store : State) : State :=
  (reschedule (deepVisit (.fetching ["EUW1_7"] [])) false 9 10 ⟨store, .never⟩).2.state

/-- The visit ends. -/
theorem deepCrawl_ends {store : State} {lost : List String}
    (cut : (reschedule (deepVisit (.fetching ["EUW1_7"] [])) false 9 10 ⟨store, .never⟩).2.cut =
      .never)
    (result : (reschedule (deepVisit (.fetching ["EUW1_7"] [])) false 9 10 ⟨store, .never⟩).1 =
      .ok ()) :
    CrawlStep shortCodecs ["EUW1"] (deepCrawl store true (.fetching ["EUW1_7"] []) lost)
      (.visit "EUW1" (.finish 9 10))
      (Crawl.setVisit { deepCrawl store true (.fetching ["EUW1_7"] []) lost with
        store := finishedStore store } "EUW1" none) :=
  ⟨_, deepCrawl_visits store true (.fetching ["EUW1_7"] []) lost, rfl, finishedStore store,
    deepVisit .done, ⟨.of_eq result cut, rfl⟩, rfl⟩

/-- The store when the match was marked seen. -/
def seenStore : State :=
  { visitedStore with ram := visitedStore.ram.mark .markSeen "EUW1" 7 }

/-- The marked player is visited deeply, and is scheduled anew. -/
theorem deep_visits_survive_marked : ∃ events final,
    Run (SparedStep shortCodecs ["EUW1"] 1) (⟨markedStore, .serving, false, fun _ => none⟩, .new)
      events final ∧
    final.1.store.tables.Queued 1 ⟨"a", 9⟩ ∧ Survived 1 final := by
  have split : splitMatchId "EUW1_7" = some ("EUW1", 7) := by decide +kernel
  obtain ⟨past, reached⟩ := reopened_reached
  have fetches := marked_fetches
  have marks : SparedStep shortCodecs ["EUW1"] 1
      (deepCrawl visitedStore true (.fetching ["EUW1_7"] ["EUW1_7"]) [],
        ⟨[("EUW1", ["EUW1_7"])], false, false⟩) (.visit "EUW1" (.mark "EUW1_7"))
      (deepCrawl seenStore true (.fetching ["EUW1_7"] []) [],
        ⟨[("EUW1", ["EUW1_7"])], true, false⟩) :=
    ⟨⟨deepCrawl_step nofun ⟨List.mem_singleton_self _, "EUW1", 7, split, rfl, rfl⟩, rfl⟩, trivial⟩
  have ends : SparedStep shortCodecs ["EUW1"] 1
      (deepCrawl seenStore true (.fetching ["EUW1_7"] []) [],
        ⟨[("EUW1", ["EUW1_7"])], true, false⟩) (.visit "EUW1" (.finish 9 10))
      (Crawl.setVisit { deepCrawl seenStore true (.fetching ["EUW1_7"] []) [] with
        store := finishedStore seenStore } "EUW1" none, ⟨[("EUW1", ["EUW1_7"])], true, false⟩) := by
    refine ⟨⟨deepCrawl_ends (by decide +kernel) (by decide +kernel), rfl⟩, ?_⟩
    intro running here _ _
    rw [deepCrawl_visits, Option.some.injEq] at here
    subst here
    exact .inr rfl
  have run := fetches.append (.cons marks (.cons ends (.nil _)))
  exact ⟨_, _, run, ⟨"EUW1", bucketPriority, 10, by decide +kernel⟩,
    deep_visits_survive shortCodecs ["EUW1"] 1 reached reopened_member reopened_queued
      reopened_marked run⟩

/-- A fetch of a deep visit fails, and the player is scheduled without the game. -/
theorem deep_visit_lost :
    ¬ ∀ (codecs : Codecs) (platforms : List String) (pid : Nat) (past : List Event)
      (crawl marked : Crawl) (nowMs : Nat) (task : FrontierTask),
      Run (CrawlStep codecs platforms) .fresh past crawl →
      pid ∈ crawl.store.ram.cohort → crawl.store.tables.Queued pid task →
      CrawlStep codecs platforms crawl (.backfill nowMs) marked →
      ∀ (events : List Event) (final : Crawl × Watch),
        Run (WatchedStep codecs platforms pid) (marked, .new) events final →
        Survived pid final := by
  intro claim
  obtain ⟨past, reached⟩ := reopened_reached
  have fetches := marked_fetches
  have watched := fetches.mono (fun _ _ _ step => step.1)
  have fails : WatchedStep shortCodecs ["EUW1"] 1
      (deepCrawl visitedStore true (.fetching ["EUW1_7"] ["EUW1_7"]) [],
        ⟨[("EUW1", ["EUW1_7"])], false, false⟩) (.visit "EUW1" (.fetchFailed "EUW1_7"))
      (deepCrawl visitedStore true (.fetching ["EUW1_7"] []) ["EUW1_7"],
        ⟨[("EUW1", ["EUW1_7"])], false, false⟩) :=
    ⟨deepCrawl_step nofun ⟨List.mem_singleton_self _, rfl⟩, rfl⟩
  have ends : WatchedStep shortCodecs ["EUW1"] 1
      (deepCrawl visitedStore true (.fetching ["EUW1_7"] []) ["EUW1_7"],
        ⟨[("EUW1", ["EUW1_7"])], false, false⟩) (.visit "EUW1" (.finish 9 10))
      (Crawl.setVisit { deepCrawl visitedStore true (.fetching ["EUW1_7"] []) ["EUW1_7"] with
        store := finishedStore visitedStore } "EUW1" none,
        ⟨[("EUW1", ["EUW1_7"])], false, false⟩) :=
    ⟨deepCrawl_ends (by decide +kernel) (by decide +kernel), rfl⟩
  have queued : (finishedStore visitedStore).tables.Queued 1 ⟨"a", 9⟩ :=
    ⟨"EUW1", bucketPriority, 10, by decide +kernel⟩
  have unseen : seenId (finishedStore visitedStore).ram "EUW1_7" = false := by decide +kernel
  obtain ⟨walk, inside, seen⟩ := claim shortCodecs ["EUW1"] 1 past _ _ 7 _ reached reopened_member
    reopened_queued reopened_marked _ _ (watched.append (.cons fails (.cons ends (.nil _))))
    _ queued (by decide)
  rw [List.mem_singleton.mp inside] at seen
  have here := seen "EUW1_7" (List.mem_singleton_self _) (by decide +kernel)
  exact Bool.false_ne_true (unseen.symm.trans here)

end LolCrawler.Server
