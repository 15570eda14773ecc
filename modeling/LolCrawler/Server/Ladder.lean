import LolCrawler.Server.Region

/-! # The ladder

The cursor walks the bands in order, page after page. It goes past a page only when all whom the
page lists are members, and what is durable of it is never ahead of the durable members. So the
ladder has no gap, whatever is cut short and wherever a crash falls back to.
-/

namespace LolCrawler.Server

open Foundation Segment Store

/-- The band and the page that come after this answer: the next page while there is one, and
after page 9999 the next band as well. -/
def turned (place : Nat × Nat) (answer : LadderPage) : Nat × Nat :=
  if answer.entries.isEmpty ∨ 9999 ≤ place.2 then (place.1 + 1, 1) else (place.1, place.2 + 1)

/-- Where these answers lead. -/
def climbed (answers : List LadderPage) : Nat × Nat := answers.foldl turned (0, 1)

/-- All whom the page lists are members. -/
def Enrolled (tables : Tables) (entries : List LeagueEntry) : Prop :=
  ∀ entry ∈ entries, ∃ pid, tables.players.get entry.puuid = some pid ∧
    (tables.cohort.get pid).isSome

/-- The cursor has walked the ladder without a gap, and these tables have all that it met. -/
structure Climbed (marks : Marks) (tables : Tables) : Prop where
  order : ∀ before answer after, marks.passed = before ++ answer :: after →
    (answer.band, answer.page) = climbed before
  cursor : (bandOf (marks.cursor.getD 0), pageOf (marks.cursor.getD 0)) = climbed marks.passed
  members : ∀ answer ∈ marks.passed, Enrolled tables answer.entries

section Climbed

variable {marks : Marks} {before after : Tables}

/-- Who is enrolled stays enrolled. -/
theorem Enrolled.mono {entries : List LeagueEntry} (enrolled : Enrolled before entries)
    (grown : Grown before after) : Enrolled after entries := by
  intro entry inside
  obtain ⟨pid, known, member⟩ := enrolled entry inside
  exact ⟨pid, grown.players _ _ known, grown.cohort _ member⟩

/-- Before the first page nothing is climbed. -/
theorem Climbed.none (tables : Tables) : Climbed .none tables where
  order before answer after same := by
    cases before with
    | nil => cases same
    | cons => cases same
  cursor := rfl
  members := nofun

/-- What is climbed stays climbed. -/
theorem Climbed.mono (climbed : Climbed marks before) (grown : Grown before after) :
    Climbed marks after :=
  ⟨climbed.order, climbed.cursor, fun answer inside => (climbed.members answer inside).mono grown⟩

/-- The cursor after a page is the next page, or the first of the next band behind an empty one. -/
theorem nextCursor_turned (cursor : Nat) (entries : List LeagueEntry) :
    (bandOf (nextCursor cursor entries), pageOf (nextCursor cursor entries)) =
      turned (bandOf cursor, pageOf cursor) ⟨bandOf cursor, pageOf cursor, entries⟩ := by
  have small : 1 ≤ pageOf cursor ∧ pageOf cursor ≤ 9999 := by
    unfold pageOf
    omega
  unfold nextCursor turned
  cases empty : entries.isEmpty with
  | true =>
      simp only [↓reduceIte, true_or, bandOf, pageOf, Prod.mk.injEq]
      omega
  | false =>
      simp only [Bool.false_eq_true, ↓reduceIte, false_or]
      generalize bandOf cursor = band at *
      generalize pageOf cursor = page at *
      unfold bandOf pageOf
      split
      · rw [Prod.mk.injEq]
        omega
      · rw [Prod.mk.injEq]
        omega

/-- **The cursor goes past a page** whose players are members. -/
theorem Climbed.advance {tables : Tables} (now : Climbed marks tables) {entries : List LeagueEntry}
    {cursor : Nat} (own : cursor = marks.cursor.getD 0) (enrolled : Enrolled tables entries) :
    Climbed
      { marks with
        cursor := some (nextCursor cursor entries)
        passed := marks.passed ++ [⟨bandOf cursor, pageOf cursor, entries⟩] } tables where
  order before answer after same := by
    rcases concat_eq_split.mp same with ⟨-, rfl, rfl⟩ | ⟨rest, -, here⟩
    · rw [← now.cursor, own]
    · exact now.order before answer rest here
  cursor := by
    rw [climbed, List.foldl_append]
    show _ = turned (climbed marks.passed) _
    rw [← now.cursor, ← own]
    exact nextCursor_turned cursor entries
  members answer inside := by
    rcases List.mem_append.mp inside with inside | same
    · exact now.members answer inside
    · rw [List.mem_singleton.mp same]
      exact enrolled

/-- The rest of what the loop keeps does not matter. -/
theorem Climbed.seeded {tables : Tables} (now : Climbed marks tables) (seeded : Option Nat) :
    Climbed { marks with seeded := seeded } tables := ⟨now.order, now.cursor, now.members⟩

end Climbed

/-! ## Steps -/

/-- What the ladder is like in every run. -/
structure Region.Climbs (now : Region) : Prop where
  current : Climbed now.marks now.crawl.store.tables
  durable : Climbed now.saved now.crawl.store.durable
  /-- The page that is asked for is the next one. -/
  asks : ∀ cursor, now.stage = .paging cursor → cursor = now.marks.cursor.getD 0
  /-- An answer is enrolled before the cursor goes past it. -/
  answered : ∀ cursor entries newly, now.stage = .paged cursor entries newly →
    cursor = now.marks.cursor.getD 0 ∧ Enrolled now.crawl.store.tables entries

section Steps

variable {codecs : Codecs} {platforms : List String} {platform : String} {now next : Region}

/-- The loop goes on to a stage that is not about the ladder. -/
theorem Region.Climbs.goes (climbs : now.Climbs) {stage : Stage} {braked : Bool}
    {counts : List Nat} (asks : ∀ cursor, stage ≠ .paging cursor)
    (answered : ∀ cursor entries newly, stage ≠ .paged cursor entries newly) :
    Region.Climbs { now with stage := stage, braked := braked, counts := counts } :=
  ⟨climbs.current, climbs.durable, fun cursor here => (asks cursor here).elim,
    fun cursor entries newly here => (answered cursor entries newly here).elim⟩

/-- What is durable after a step of the server. -/
theorem Region.Climbs.saving (climbs : now.Climbs) {crawl : Crawl} {saved : Marks}
    (saving : Saving now.crawl crawl now.marks now.saved saved) :
    Climbed saved crawl.store.durable := by
  cases saving with
  | kept same => exact same ▸ climbs.durable
  | checkpoint grown => exact climbs.current.mono grown

/-- The server takes a step, and the process goes on. -/
theorem Region.Climbs.served (climbs : now.Climbs) (steady : now.crawl.Steady platforms)
    {event : Event} {crawl : Crawl} {saved : Marks}
    (step : MadeStep codecs platforms now.crawl event crawl) (alive : event.ends = false)
    (saving : Saving now.crawl crawl now.marks now.saved saved) :
    Region.Climbs { now with crawl := crawl, saved := saved } := by
  have grown := (step.1.grown steady.sound steady.players).1 alive
  refine ⟨climbs.current.mono grown, climbs.saving saving, climbs.asks,
    fun cursor entries newly here => ?_⟩
  obtain ⟨own, enrolled⟩ := climbs.answered cursor entries newly here
  exact ⟨own, enrolled.mono grown⟩

/-- The loop takes a step of the server. -/
theorem Region.Climbs.serves (climbs : now.Climbs) (steady : now.crawl.Steady platforms)
    {event : Event} {stage : Crawl → Stage}
    (serves : now.Serves codecs platforms event stage next) (alive : event.ends = false)
    (asks : ∀ crawl cursor, stage crawl ≠ .paging cursor)
    (answered : ∀ crawl cursor entries newly, stage crawl ≠ .paged cursor entries newly) :
    next.Climbs := by
  rw [serves.rest]
  exact (climbs.served steady serves.step alive serves.saving).goes (asks _) (answered _)

/-- **Each step** keeps the pages behind the cursor enrolled. -/
theorem RegionStep.climbs {event : RegionEvent} (steady : now.crawl.Steady platforms)
    (steady' : next.crawl.Steady platforms)
    (step : RegionStep codecs platforms platform now event next) (climbs : now.Climbs) :
    next.Climbs := by
  cases event with
  | server event =>
      obtain ⟨-, -, crawl, saved, step, saving, rfl⟩ := step
      rw [served_crawl] at steady'
      have ending : crawl.mode = .down → Region.Climbs ⟨crawl, saved, saved, .down, false, []⟩ := by
        intro down
        have durable := climbs.saving saving
        refine ⟨?_, durable, nofun, nofun⟩
        rw [show (⟨crawl, saved, saved, .down, false, []⟩ : Region).crawl.store.tables =
          crawl.store.durable from (steady'.sound.down down).1]
        exact durable
      cases event with
      | spawn => exact (climbs.served steady step rfl saving).goes nofun nofun
      | backfill nowMs => exact (climbs.served steady step rfl saving).goes nofun nofun
      | exit nowMs order =>
          obtain ⟨-, -, -, store, -, ended⟩ := step.1
          exact ending ended.mode
      | crash during =>
          obtain ⟨store, -, ended⟩ := step.1
          exact ending ended.mode
      | _ => exact climbs.served steady step rfl saving
  | begin nowMs =>
      obtain ⟨-, rfl⟩ := step
      refine climbs.goes (fun cursor => ?_) fun cursor entries newly => ?_
      · split
        · nofun
        · split <;> nofun
      · split
        · nofun
        · split <;> nofun
  | league nowMs =>
      obtain ⟨league, nowS, -, step⟩ := step
      split at step
      · rw [step]
        exact climbs.goes nofun nofun
      · split at step
        · rw [step]
          exact climbs.goes nofun nofun
        · obtain ⟨braked, ⟨overdue, -, rfl⟩, rfl⟩ := step
          refine climbs.goes (fun cursor => ?_) fun cursor entries newly => ?_
          · split <;> nofun
          · split <;> nofun
  | listed list nowMs =>
      obtain ⟨league, nowS, names, -, -, serves⟩ := step
      exact climbs.serves steady serves rfl nofun nofun
  | listFailed nowMs =>
      obtain ⟨league, nowS, -, rfl⟩ := step
      refine climbs.goes (fun cursor => ?_) fun cursor entries newly => ?_
      · split <;> nofun
      · split <;> nofun
  | markSeeded =>
      obtain ⟨nowS, -, rfl⟩ := step
      exact ⟨climbs.current.seeded _, climbs.durable, nofun, nofun⟩
  | retry nowMs =>
      obtain ⟨wakeMs, -, -, rfl⟩ := step
      exact climbs.goes nofun nofun
  | pop nowMs =>
      refine climbs.serves steady step.2 rfl (fun crawl cursor => ?_)
        fun crawl cursor entries newly => ?_
      · split <;> nofun
      · split <;> nofun
  | check =>
      refine climbs.serves steady step.2 rfl (fun crawl cursor => ?_)
        fun crawl cursor entries newly => ?_
      · split <;> nofun
      · split <;> nofun
  | start nowMs =>
      obtain ⟨-, braked, ⟨overdue, -, rfl⟩, rfl⟩ := step
      exact climbs.goes nofun nofun
  | visit event =>
      refine climbs.serves steady step.2.2 rfl (fun crawl cursor => ?_)
        fun crawl cursor entries newly => ?_
      · split <;> nofun
      · split <;> nofun
  | expand nowMs =>
      obtain ⟨-, braked, ⟨overdue, -, rfl⟩, rfl⟩ := step
      refine ⟨climbs.current, climbs.durable, fun cursor here => ?_,
        fun cursor entries newly here => ?_⟩
      · simp only at here
        split at here
        · cases here
        · split at here
          · cases here
            rfl
          · cases here
      · simp only at here
        split at here
        · cases here
        · split at here
          · cases here
          · cases here
  | page entries nowMs =>
      obtain ⟨cursor, here, step⟩ := step
      have own := climbs.asks cursor here
      split at step
      · next empty =>
          rw [step]
          refine ⟨climbs.current, climbs.durable, nofun, ?_⟩
          rintro _ _ _ ⟨⟩
          refine ⟨own, fun entry inside => ?_⟩
          rw [List.isEmpty_iff.mp empty] at inside
          cases inside
      · obtain ⟨newly, ends, serves⟩ := step
        obtain ⟨mode, -⟩ := serves.step.1
        have up : now.crawl.mode ≠ .down := by rw [mode]; nofun
        have after := climbs.served steady serves.step rfl serves.saving
        obtain ⟨-, -, listed⟩ := enroll_grown (steady.sound.up up) (steady.players up) ends
        rw [serves.rest]
        refine ⟨after.current, after.durable, nofun, ?_⟩
        rintro _ _ _ ⟨⟩
        exact ⟨own, fun entry inside => listed _ (List.mem_map.mpr ⟨entry, inside, rfl⟩)⟩
  | pageFailed =>
      obtain ⟨cursor, -, rfl⟩ := step
      refine climbs.goes (fun cursor => ?_) fun cursor entries newly => ?_
      · split <;> nofun
      · split <;> nofun
  | advance =>
      obtain ⟨cursor, entries, newly, here, rfl⟩ := step
      obtain ⟨own, enrolled⟩ := climbs.answered cursor entries newly here
      refine ⟨climbs.current.advance own enrolled, climbs.durable, fun cursor here => ?_,
        fun cursor entries newly here => ?_⟩
      · simp only at here
        split at here
        · cases here
        · cases here
      · simp only at here
        split at here
        · cases here
        · cases here
  | rest nowMs =>
      obtain ⟨-, nextDue, -, rfl⟩ := step
      exact climbs.goes nofun nofun
  | wake nowMs =>
      obtain ⟨sinceMs, wakeMs, -, -, rfl⟩ := step
      exact climbs.goes nofun nofun
  | close =>
      obtain ⟨-, rfl⟩ := step
      exact climbs.goes nofun nofun
  | commit nowMs order => exact climbs.serves steady step.2 rfl nofun nofun
  | finish nowMs order => exact climbs.serves steady step.2 rfl nofun nofun

end Steps

/-! ## Runs -/

/-- **The ladder is walked without a gap.** In every run of the server, over stops, restarts and
crashes anywhere: the pages that the cursor has gone past are all pages from the first, in order,
each band until its first empty page or its page 9999; the cursor is at the next page, and that is
the page a region asks for; and whoever was listed on a page behind the cursor is a member. The
same holds of the durable cursor and the durable members. -/
theorem ladder_without_gap {codecs : Codecs} {platforms : List String} {platform : String}
    {events : List RegionEvent} {now : Region}
    (run : Run (RegionStep codecs platforms platform) .fresh events now) :
    Climbed now.marks now.crawl.store.tables ∧ Climbed now.saved now.crawl.store.durable ∧
      ∀ cursor, now.stage = .paging cursor →
        (bandOf cursor, pageOf cursor) = climbed now.marks.passed := by
  have climbs : now.Climbs :=
    Region.invariant ⟨.none _, .none _, nofun, nofun⟩
      (fun _ _ _ steady steady' step held => step.climbs steady steady' held) run
  refine ⟨climbs.current, climbs.durable, fun cursor here => ?_⟩
  rw [climbs.asks cursor here]
  exact climbs.current.cursor

/-! ## The first page -/

def listedEntry : LeagueEntry := ⟨"a", "GOLD", "II", 1, 2, 3⟩

/-- A region of a server that is about to stop. -/
def stopping (store : State) (stopped : Bool) (stage : Stage) (counts : List Nat) : Region :=
  ⟨⟨store, .serving, stopped, fun _ => none⟩, .none, .none, stage, false, counts⟩

/-- The region once the cursor has gone past the first page. -/
def climbedOnce : Region :=
  { stopping ladderStore true .closing [0] with
    marks := ⟨none, some 2, [⟨0, 1, [listedEntry]⟩]⟩ }

/-- Every region's loop starts in an empty data directory. -/
theorem looping_reached (platforms : List String) (platform : String) : ∃ events,
    Run (RegionStep shortCodecs platforms platform) .fresh events
      (stopping { State.empty with ram := Ram.load platforms .empty } false .looping []) := by
  let store : State := { State.empty with ram := Ram.load platforms .empty }
  have opened : RegionStep shortCodecs platforms platform .fresh (.server .openStore)
      { Region.fresh with crawl := ⟨store, .opened, false, fun _ => none⟩ } :=
    ⟨rfl, nofun, _, _, ⟨⟨rfl, _, rfl, rfl⟩, trivial⟩, .kept rfl, rfl⟩
  have ready : RegionStep shortCodecs platforms platform
      { Region.fresh with crawl := ⟨store, .opened, false, fun _ => none⟩ }
      (.server (.reconcile 4))
      { Region.fresh with crawl := ⟨store, .ready, false, fun _ => none⟩ } := by
    have nobody := frontierReconcile_idle (show store.tables.stranded.isEmpty = true from rfl)
      platforms 4
    exact ⟨rfl, nofun, _, _, ⟨⟨rfl, 0, _, nobody, rfl⟩, trivial⟩, .kept rfl, rfl⟩
  have spawned : RegionStep shortCodecs platforms platform
      { Region.fresh with crawl := ⟨store, .ready, false, fun _ => none⟩ } (.server .spawn)
      (stopping store false .looping []) :=
    ⟨rfl, nofun, _, _, ⟨⟨rfl, rfl⟩, trivial⟩, .kept rfl, rfl⟩
  exact ⟨_, .cons opened (.cons ready (.cons spawned (.nil _)))⟩

/-- The region is about to seed the apex leagues. -/
theorem seeding_reached : ∃ events, Run (RegionStep shortCodecs ["EUW1"] "EUW1") .fresh events
    (stopping firstStore false (.seeding 0 5) []) := by
  obtain ⟨past, looping⟩ := looping_reached ["EUW1"] "EUW1"
  have begun : RegionStep shortCodecs ["EUW1"] "EUW1" (stopping firstStore false .looping [])
      (.begin 5000) (stopping firstStore false (.seeding 0 5) []) := ⟨rfl, rfl⟩
  exact ⟨_, looping.append (.cons begun (.nil _))⟩

/-- The region asks for the first page. -/
theorem paging_reached : ∃ events, Run (RegionStep shortCodecs ["EUW1"] "EUW1") .fresh events
    (stopping firstStore true (.paging 0) [0]) := by
  obtain ⟨past, seeding⟩ := seeding_reached
  have stopped : RegionStep shortCodecs ["EUW1"] "EUW1"
      (stopping firstStore false (.seeding 0 5) []) (.server .stop)
      (stopping firstStore true (.seeding 0 5) []) :=
    ⟨rfl, nofun, _, _, ⟨⟨rfl, rfl⟩, trivial⟩, .kept rfl, rfl⟩
  have skipped : RegionStep shortCodecs ["EUW1"] "EUW1"
      (stopping firstStore true (.seeding 0 5) []) (.league 5000)
      (stopping firstStore true .popping []) := ⟨0, 5, rfl, rfl⟩
  have popped : RegionStep shortCodecs ["EUW1"] "EUW1" (stopping firstStore true .popping [])
      (.pop 5000) (stopping firstStore true .expanding []) := by
    have idle : Function.update (fun _ : String => (none : Option Running)) "EUW1" none =
        fun _ => none := Function.update_eq_self_iff.mpr rfl
    have still : (⟨firstStore, .serving, true, fun _ => none⟩ : Crawl) =
        Crawl.setVisit ⟨firstStore, .serving, true, fun _ => none⟩ "EUW1" none :=
      congrArg (Crawl.mk firstStore .serving true) idle.symm
    exact ⟨rfl, ⟨⟨rfl, List.mem_singleton_self _, rfl, none, firstStore, rfl, still⟩, trivial⟩,
      .kept rfl, rfl⟩
  have expanded : RegionStep shortCodecs ["EUW1"] "EUW1" (stopping firstStore true .expanding [])
      (.expand 5000) (stopping firstStore true (.paging 0) [0]) :=
    ⟨rfl, _, ⟨0, rfl, rfl⟩, rfl⟩
  exact ⟨_, seeding.append (.cons stopped (.cons skipped (.cons popped (.cons expanded
    (.nil _)))))⟩

/-- The region has passed the first page. -/
theorem climbedOnce_reached : ∃ events,
    Run (RegionStep shortCodecs ["EUW1"] "EUW1") .fresh events climbedOnce := by
  obtain ⟨past, reached⟩ := paging_reached
  have enrolled : Ends (enroll "EUW1" (ladderEntries [listedEntry]) cohortSrcLadder 5) firstStore 1
      ladderStore := .of_eq (by decide +kernel) (by decide +kernel)
  have answered : RegionStep shortCodecs ["EUW1"] "EUW1"
      (stopping firstStore true (.paging 0) [0]) (.page [listedEntry] 5)
      (stopping ladderStore true (.paged 0 [listedEntry] 1) [0]) :=
    ⟨0, rfl, 1, enrolled, ⟨⟨rfl, List.mem_singleton_self _, rfl, 1, _, enrolled, rfl⟩, .inr rfl⟩,
      .kept rfl, rfl⟩
  have advanced : RegionStep shortCodecs ["EUW1"] "EUW1"
      (stopping ladderStore true (.paged 0 [listedEntry] 1) [0]) .advance climbedOnce :=
    ⟨0, [listedEntry], 1, rfl, rfl⟩
  exact ⟨_, reached.append (.cons answered (.cons advanced (.nil _)))⟩

/-- The players of the first page are enrolled. -/
theorem ladder_without_gap_once : Climbed climbedOnce.marks ladderStore.tables := by
  obtain ⟨events, run⟩ := climbedOnce_reached
  exact (ladder_without_gap run).1

end LolCrawler.Server
