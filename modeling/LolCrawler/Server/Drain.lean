import LolCrawler.Foundation.Potential
import LolCrawler.Server.Growth
import LolCrawler.Server.Idle

/-! # The shutdown

A region heeds the stop at the head of its loop, and until then ends what it is at. A visit pages
no further and skips the matches that it has not asked for, so what it has left is bounded by the
ids it has been answered; every other stage is a few steps from the end. But what has been asked
for is waited for: a region ends only if every fetch that is under way is resolved.
-/

namespace LolCrawler.Server

open Foundation Segment Store

/-- How many steps a visit has left, once the server is stopping. -/
def Phase.left : Phase → Nat
  | .awaiting ids _ => ids.length + 4
  | .listing ids _ _ => ids.length + 3
  | .listed ids => ids.length + 2
  | .fetching _ left => left.length + 1
  | .done => 0

/-- The same for the loop, where the visit has this many left. -/
def Stage.left (visit : Nat) : Stage → Nat
  | .down | .ended => 0
  | .ending => 1
  | .looping => 2
  | .closing | .backoff _ => 3
  | .sleeping .. => 4
  | .idle => 5
  | .paged .. => 6
  | .paging _ => 7
  | .expanding => 8
  | .visiting => visit + 3
  | .starting => visit + 4
  | .popped => visit + 5
  | .popping => 10
  | .seeded _ => 11
  | .seeding .. => 12
  | .listing .. => 13

def visitLeft (visit : Option Running) : Nat := visit.elim 0 fun running => running.visit.phase.left

def Region.left (platform : String) (now : Region) : Nat :=
  now.stage.left (visitLeft (now.crawl.visits platform))

/-- How many ids the step is answered. -/
def RegionEvent.ids : RegionEvent → Nat
  | .visit (.page ids) => ids.length
  | _ => 0

/-- The step takes an answer that the visit waits for. -/
def VisitEvent.answers : VisitEvent → Bool
  | .page _ | .pageFailed _ | .fetchFailed _ | .mark _ | .store .. => true
  | .nextPage | .list _ | .select | .skip _ | .finish .. => false

/-- The step takes an answer that the region waits for. -/
def RegionEvent.answers : RegionEvent → Bool
  | .listed .. | .listFailed _ | .page .. | .pageFailed => true
  | .visit event => event.answers
  | _ => false

/-- The visit waits for an answer, where these matches have been asked for: the others are
skipped. -/
def Phase.awaits (asked : String → Bool) : Phase → Bool
  | .awaiting .. => true
  | .fetching _ left => !left.isEmpty && left.all asked
  | _ => false

/-- The same for the loop. -/
def Stage.awaits (asked : String → Bool) (visit : Option Running) : Stage → Bool
  | .listing .. | .paging _ => true
  | .visiting => visit.any fun running => running.visit.phase.awaits asked
  | _ => false

def Region.awaits (asked : String → Bool) (platform : String) (now : Region) : Bool :=
  now.stage.awaits asked (now.crawl.visits platform)

/-- A step of the loop when every fetch fails that is under way: no other answer comes, and no
match is skipped that has been asked for. -/
def RegionEvent.drains (asked : String → Bool) : RegionEvent → Bool
  | .listFailed _ | .pageFailed | .visit (.pageFailed _) | .visit (.fetchFailed _) => true
  | .visit (.skip matchId) => !asked matchId
  | event => event.own && !event.answers

/-- The process goes on. -/
def RegionEvent.alive : RegionEvent → Bool
  | .server event => !event.ends
  | _ => true

/-! ## A visit -/

section Visits

variable {codecs : Codecs} {platforms : List String} {platform : String} {crawl after : Crawl}

/-- **A step of a visit**, once the server is stopping. -/
theorem visitStep_left {now next : Visiting} {event : VisitEvent}
    (step : VisitStep codecs true now event next) :
    next.visit.phase.left + 1 ≤
      now.visit.phase.left + (RegionEvent.visit event).ids := by
  obtain ⟨store, player, own, task, phase⟩ := now
  cases event with
  | page page =>
      cases phase with
      | awaiting ids start =>
          cases step
          simp only [Visit.goTo, Phase.left, RegionEvent.ids, List.length_append]
          omega
      | _ => exact step.elim
  | pageFailed nowMs =>
      cases phase with
      | awaiting ids start =>
          rw [step.2]
          simp only [Visit.goTo, Phase.left]
          omega
      | _ => exact step.elim
  | nextPage =>
      cases phase with
      | listing ids pageLen start =>
          obtain ⟨more, -⟩ := step
          simp [morePages] at more
      | _ => exact step.elim
  | list rank =>
      cases phase with
      | listing ids pageLen start =>
          rw [step.2.2]
          have short : ((ids.insertionSort (· ≤ ·)).dedup).length ≤ ids.length := by
            rw [← List.length_insertionSort (· ≤ ·) ids]
            exact (List.dedup_sublist _).length_le
          simp only [Visit.goTo, Phase.left]
          omega
      | _ => exact step.elim
  | select =>
      cases phase with
      | listed ids =>
          cases step
          have short : (newIds player store.ram ids).length ≤ ids.length :=
            List.length_filter_le _ _
          simp only [Visit.goTo, Phase.left]
          omega
      | _ => exact step.elim
  | skip matchId =>
      cases phase with
      | fetching ids left =>
          obtain ⟨-, inside, rfl⟩ := step
          have shorter := List.length_erase_add_one inside
          simp only [Visit.goTo, Phase.left]
          omega
      | _ => exact step.elim
  | fetchFailed matchId =>
      cases phase with
      | fetching ids left =>
          obtain ⟨inside, rfl⟩ := step
          have shorter := List.length_erase_add_one inside
          simp only [Visit.goTo, Phase.left]
          omega
      | _ => exact step.elim
  | mark matchId =>
      cases phase with
      | fetching ids left =>
          obtain ⟨inside, _, _, -, -, same⟩ := step
          have shorter := List.length_erase_add_one inside
          rw [same]
          simp only [Visit.goTo, Phase.left]
          omega
      | _ => exact step.elim
  | store matchId given clock failed =>
      cases phase with
      | fetching ids left =>
          obtain ⟨inside, -, -, -, -, -, same⟩ := step
          have shorter := List.length_erase_add_one inside
          rw [same]
          simp only [Visit.goTo, Phase.left]
          omega
      | _ => exact step.elim
  | finish nowMs dueMs =>
      cases phase with
      | fetching ids left =>
          cases left with
          | nil =>
              rw [step.2]
              simp [Visit.goTo, Phase.left]
          | cons => exact step.elim
      | _ => exact step.elim

/-- What the others do to the visit of a region, and to the stop. -/
theorem CrawlStep.leaves {event : Event} (step : CrawlStep codecs platforms crawl event after)
    (platform : String) (alive : event.ends = false) :
    (crawl.stopped = true → after.stopped = true) ∧
      (event.ofRegion platform = false → after.visits platform = crawl.visits platform) := by
  have away : ∀ {other : String}, decide (other = platform) = false → platform ≠ other :=
    fun different same => of_decide_eq_false different same.symm
  cases event with
  | openStore =>
      obtain ⟨-, store, -, rfl⟩ := step
      exact ⟨id, fun _ => rfl⟩
  | reconcile nowMs =>
      obtain ⟨-, count, store, -, rfl⟩ := step
      exact ⟨id, fun _ => rfl⟩
  | backfill nowMs =>
      obtain ⟨-, count, store, -, rfl⟩ := step
      exact ⟨id, fun _ => rfl⟩
  | spawn =>
      obtain ⟨-, rfl⟩ := step
      exact ⟨id, fun _ => rfl⟩
  | popDue other nowMs =>
      obtain ⟨-, -, -, result, store, -, rfl⟩ := step
      exact ⟨id, fun different => by rw [setVisit_visits, if_neg (away different)]⟩
  | check other =>
      obtain ⟨running, -, -, rfl⟩ := step
      exact ⟨id, fun different => by rw [setVisit_visits, if_neg (away different)]⟩
  | visit other event =>
      obtain ⟨running, -, -, store, visit, -, rfl⟩ := step
      exact ⟨id, fun different => by rw [setVisit_visits, if_neg (away different)]⟩
  | enroll other entries source nowMs =>
      obtain ⟨-, -, -, newly, store, -, rfl⟩ := step
      exact ⟨id, fun _ => rfl⟩
  | snapshot pid tsMs snap =>
      obtain ⟨-, store, -, rfl⟩ := step
      exact ⟨id, fun _ => rfl⟩
  | commit nowMs order =>
      obtain ⟨-, store, -, rfl⟩ := step
      exact ⟨id, fun _ => rfl⟩
  | persist =>
      obtain ⟨-, rfl⟩ := step
      exact ⟨id, fun _ => rfl⟩
  | stop =>
      obtain ⟨-, rfl⟩ := step
      exact ⟨fun _ => rfl, fun _ => rfl⟩
  | exit nowMs order => cases alive
  | crash during => cases alive

/-- What the steps of a region do to its visit. -/
theorem CrawlStep.visits_visit {event : VisitEvent}
    (step : CrawlStep codecs platforms crawl (.visit platform event) after)
    (stopped : crawl.stopped = true) :
    visitLeft (after.visits platform) + 1 ≤
      visitLeft (crawl.visits platform) + (RegionEvent.visit event).ids := by
  obtain ⟨running, here, -, store, visit, step, rfl⟩ := step
  rw [stopped] at step
  have fewer : visit.phase.left + 1 ≤
      running.visit.phase.left + (RegionEvent.visit event).ids := visitStep_left step
  rw [setVisit_visits, if_pos rfl, here]
  show visitLeft (running.next event visit) + 1 ≤ running.visit.phase.left + _
  unfold Running.next
  split
  · show 0 + 1 ≤ _
    omega
  · exact fewer

end Visits

/-! ## One step -/

/-- A visit that can go on, if the loop is at one. -/
def Stage.Fits (visit : Option Running) : Stage → Prop
  | .popped => ∃ running, visit = some running ∧ running.checked = false ∧
      running.visit.phase ≠ .done
  | .starting | .visiting => ∃ running, visit = some running ∧ running.checked = true ∧
      running.visit.phase ≠ .done
  | _ => visit = none

/-- What the visit of a region is like in every run. -/
def Region.Fits (platform : String) (now : Region) : Prop :=
  now.stage.Fits (now.crawl.visits platform)

section Steps

variable {codecs : Codecs} {platforms : List String} {platform : String} {now next : Region}

/-- The loop goes on, and its visit with it. -/
theorem Region.Fits.goes (fits : now.Fits platform) {here : Stage} (at' : now.stage = here)
    {stage : Stage} {marks saved : Marks} {braked : Bool} {counts : List Nat}
    (goes : ∀ visit, here.Fits visit → stage.Fits visit) :
    Region.Fits platform ⟨now.crawl, marks, saved, stage, braked, counts⟩ :=
  goes _ (at' ▸ fits)

/-- The loop takes a step of the server that is not about its visit. -/
theorem Region.Fits.serves (fits : now.Fits platform) {here : Stage} (at' : now.stage = here)
    {event : Event} {stage : Crawl → Stage}
    (serves : now.Serves codecs platforms event stage next)
    (same : next.crawl.visits platform = now.crawl.visits platform)
    (goes : ∀ crawl visit, here.Fits visit → (stage crawl).Fits visit) : next.Fits platform := by
  rw [Region.Fits, serves.rest, same]
  exact goes _ _ (at' ▸ fits)

/-- A page that is enrolled leaves the visits. -/
theorem enroll_visits {crawl after : Crawl} {entries : List (String × RankSnap)}
    {source nowMs : Nat}
    (step : CrawlStep codecs platforms crawl (.enroll platform entries source nowMs) after) :
    after.visits = crawl.visits := by
  obtain ⟨-, -, -, newly, store, -, rfl⟩ := step
  rfl

/-- **Each step** keeps the visit of a region fit for the stage of its loop. -/
theorem RegionStep.fits {event : RegionEvent} (steady : now.crawl.Steady platforms)
    (step : RegionStep codecs platforms platform now event next) (fits : now.Fits platform) :
    next.Fits platform := by
  cases event with
  | server event =>
      obtain ⟨apart, -, crawl, saved, step, -, rfl⟩ := step
      cases event with
      | spawn =>
          obtain ⟨ready, same⟩ := step.1
          rw [same]
          exact steady.sound.idle (by simp [ready]) platform
      | backfill nowMs =>
          obtain ⟨ready, count, store, -, same⟩ := step.1
          rw [same]
          exact steady.sound.idle (by simp [ready]) platform
      | exit nowMs order =>
          obtain ⟨-, -, -, store, -, ended⟩ := step.1
          exact congrFun ended.visits platform
      | crash during =>
          obtain ⟨store, -, ended⟩ := step.1
          exact congrFun ended.visits platform
      | _ =>
          show Stage.Fits (crawl.visits platform) now.stage
          rw [(step.1.leaves _ rfl).2 apart]
          exact fits
  | begin nowMs =>
      obtain ⟨here, rfl⟩ := step
      refine fits.goes here fun visit free => ?_
      split
      · exact free
      · split
        · exact free
        · exact free
  | league nowMs =>
      obtain ⟨league, nowS, here, step⟩ := step
      split at step
      · rw [step]
        exact fits.goes here fun visit free => free
      · split at step
        · rw [step]
          exact fits.goes here fun visit free => free
        · obtain ⟨braked, ⟨overdue, -, rfl⟩, rfl⟩ := step
          refine fits.goes here fun visit free => ?_
          split
          · exact free
          · exact free
  | listed list nowMs =>
      obtain ⟨league, nowS, names, here, -, serves⟩ := step
      exact fits.serves here serves (congrFun (enroll_visits serves.step.1) platform)
        fun _ _ free => free
  | listFailed nowMs =>
      obtain ⟨league, nowS, here, rfl⟩ := step
      refine fits.goes here fun visit free => ?_
      split
      · exact free
      · exact free
  | markSeeded =>
      obtain ⟨nowS, here, rfl⟩ := step
      exact fits.goes here fun visit free => free
  | retry nowMs =>
      obtain ⟨wakeMs, here, -, rfl⟩ := step
      exact fits.goes here fun visit free => free
  | pop nowMs =>
      obtain ⟨-, serves⟩ := step
      obtain ⟨-, -, -, result, store, -, same⟩ := serves.step.1
      have visits : next.crawl.visits platform =
          result.map fun found => Running.started platform found.2.1 found.2.2 := by
        rw [same, setVisit_visits, if_pos rfl]
      rw [Region.Fits, serves.rest]
      simp only
      rw [visits]
      cases result with
      | none => rfl
      | some found => exact ⟨_, rfl, rfl, by simp [Running.started]⟩
  | check =>
      obtain ⟨here, serves⟩ := step
      obtain ⟨running, held, -, same⟩ := serves.step.1
      have there : Stage.Fits (now.crawl.visits platform) .popped := here ▸ fits
      obtain ⟨before, found, -, goes⟩ := there
      obtain rfl : running = before := Option.some.inj (held.symm.trans found)
      have visits : next.crawl.visits platform =
          if running.visit.pid ∈ now.crawl.store.ram.cohort then
            some { running with checked := true } else none := by
        rw [same, setVisit_visits, if_pos rfl]
      rw [Region.Fits, serves.rest]
      simp only
      rw [visits]
      by_cases member : running.visit.pid ∈ now.crawl.store.ram.cohort
      · rw [if_pos member]
        exact ⟨_, rfl, rfl, goes⟩
      · rw [if_neg member]
        rfl
  | start nowMs =>
      obtain ⟨here, braked, ⟨overdue, -, rfl⟩, rfl⟩ := step
      exact fits.goes here fun visit held => held
  | visit event =>
      obtain ⟨here, -, serves⟩ := step
      obtain ⟨running, held, checked, store, visit, -, same⟩ := serves.step.1
      have visits : next.crawl.visits platform = running.next event visit := by
        rw [same, setVisit_visits, if_pos rfl]
      rw [Region.Fits, serves.rest]
      simp only
      rw [visits, Running.next]
      by_cases done : visit.phase = .done
      · rw [if_pos done]
        rfl
      · rw [if_neg done]
        exact ⟨_, rfl, checked, done⟩
  | expand nowMs =>
      obtain ⟨here, braked, ⟨overdue, -, rfl⟩, rfl⟩ := step
      refine fits.goes here fun visit free => ?_
      split
      · exact free
      · split
        · exact free
        · exact free
  | page entries nowMs =>
      obtain ⟨cursor, here, step⟩ := step
      split at step
      · rw [step]
        exact fits.goes here fun visit free => free
      · obtain ⟨newly, -, serves⟩ := step
        exact fits.serves here serves (congrFun (enroll_visits serves.step.1) platform)
          fun _ _ free => free
  | pageFailed =>
      obtain ⟨cursor, here, rfl⟩ := step
      refine fits.goes here fun visit free => ?_
      split
      · exact free
      · exact free
  | advance =>
      obtain ⟨cursor, entries, newly, here, rfl⟩ := step
      refine fits.goes here fun visit free => ?_
      split
      · exact free
      · exact free
  | rest nowMs =>
      obtain ⟨here, nextDue, -, rfl⟩ := step
      exact fits.goes here fun visit free => free
  | wake nowMs =>
      obtain ⟨sinceMs, wakeMs, here, -, rfl⟩ := step
      exact fits.goes here fun visit free => free
  | close =>
      obtain ⟨here, rfl⟩ := step
      exact fits.goes here fun visit free => free
  | commit nowMs order =>
      exact fits.serves step.1 step.2 ((step.2.step.1.leaves _ rfl).2 rfl) fun _ _ free => free
  | finish nowMs order =>
      exact fits.serves step.1 step.2 ((step.2.step.1.leaves _ rfl).2 rfl) fun _ _ free => free

/-- A region whose loop goes on, in a server that is stopping. -/
def Region.Stopping (now : Region) : Prop := now.stage ≠ .down ∧ now.crawl.stopped = true

/-- The loop goes on to a stage with fewer steps left. -/
theorem Region.Stopping.goes (stopping : now.Stopping) {here : Stage} (at' : now.stage = here)
    {stage : Stage} {marks saved : Marks} {braked : Bool} {counts : List Nat} (up : stage ≠ .down)
    (fewer : ∀ visit, stage.left visit + 1 ≤ here.left visit) :
    Region.Stopping ⟨now.crawl, marks, saved, stage, braked, counts⟩ ∧
      1 + Region.left platform ⟨now.crawl, marks, saved, stage, braked, counts⟩ ≤
        now.left platform + 0 := by
  refine ⟨⟨up, stopping.2⟩, ?_⟩
  have paid := fewer (visitLeft (now.crawl.visits platform))
  rw [Region.left, Region.left, at']
  show 1 + stage.left (visitLeft (now.crawl.visits platform)) ≤
    here.left (visitLeft (now.crawl.visits platform)) + 0
  omega

/-- The loop takes a step of the server that is not about its visit. -/
theorem Region.Stopping.serves (stopping : now.Stopping) {here : Stage} (at' : now.stage = here)
    {event : Event} {stage : Crawl → Stage}
    (serves : now.Serves codecs platforms event stage next) (alive : event.ends = false)
    (up : ∀ crawl, stage crawl ≠ .down)
    (fewer : ∀ crawl, (stage crawl).left (visitLeft (crawl.visits platform)) + 1 ≤
      here.left (visitLeft (now.crawl.visits platform))) :
    next.Stopping ∧ 1 + next.left platform ≤ now.left platform + 0 := by
  have stopped := (serves.step.1.leaves platform alive).1 stopping.2
  have stage' : next.stage = stage next.crawl := by rw [serves.rest]
  refine ⟨⟨stage' ▸ up _, stopped⟩, ?_⟩
  have paid := fewer next.crawl
  unfold Region.left
  rw [stage', at']
  omega

/-- **A step of a region**, once the server is stopping, is paid for. -/
theorem RegionStep.pays {event : RegionEvent} (up : now.stage ≠ .down → now.crawl.mode = .serving)
    (step : RegionStep codecs platforms platform now event next) (stopping : now.Stopping)
    (alive : event.alive = true) :
    next.Stopping ∧ (if event.own then 1 else 0) + next.left platform ≤
      now.left platform + event.ids := by
  cases event with
  | server event =>
      obtain ⟨apart, -, crawl, saved, step, -, rfl⟩ := step
      have mode := up stopping.1
      have goes : ∀ ends : event.ends = false,
          Region.Stopping { now with crawl := crawl, saved := saved } ∧
            0 + Region.left platform { now with crawl := crawl, saved := saved } ≤
              now.left platform + 0 := by
        intro ends
        obtain ⟨stopped, visits⟩ := step.1.leaves platform ends
        refine ⟨⟨stopping.1, stopped stopping.2⟩, ?_⟩
        show 0 + now.stage.left (visitLeft (crawl.visits platform)) ≤
          now.stage.left (visitLeft (now.crawl.visits platform)) + 0
        rw [visits apart]
        omega
      cases event with
      | spawn => cases mode.symm.trans step.1.1
      | backfill nowMs => cases mode.symm.trans step.1.1
      | exit nowMs order => cases alive
      | crash during => cases alive
      | _ => exact goes rfl
  | begin nowMs =>
      obtain ⟨here, rfl⟩ := step
      rw [stopping.2]
      exact stopping.goes here (by simp) fun _ => Nat.le_refl _
  | league nowMs =>
      obtain ⟨league, nowS, here, step⟩ := step
      split at step
      · rw [step]
        exact stopping.goes here (by simp) fun _ => Nat.le_refl _
      · rw [if_pos stopping.2] at step
        rw [step]
        exact stopping.goes here (by simp) fun _ => by simp [Stage.left]
  | listed list nowMs =>
      obtain ⟨league, nowS, names, here, -, serves⟩ := step
      exact stopping.serves here serves rfl (by simp) fun _ => Nat.le_refl _
  | listFailed nowMs =>
      obtain ⟨league, nowS, here, rfl⟩ := step
      rw [stopping.2]
      exact stopping.goes here (by simp) fun _ => by simp [Stage.left]
  | markSeeded =>
      obtain ⟨nowS, here, rfl⟩ := step
      exact stopping.goes here (by simp) fun _ => Nat.le_refl _
  | retry nowMs =>
      obtain ⟨wakeMs, here, -, rfl⟩ := step
      exact stopping.goes here (by simp) fun _ => Nat.le_refl _
  | pop nowMs =>
      obtain ⟨here, serves⟩ := step
      obtain ⟨-, -, -, result, store, -, same⟩ := serves.step.1
      have stage' : next.stage = if (next.crawl.visits platform).isSome then .popped
          else .expanding := by rw [serves.rest]
      have visits : next.crawl.visits platform =
          result.map fun found => Running.started platform found.2.1 found.2.2 := by
        rw [same, setVisit_visits, if_pos rfl]
      have stopped : next.crawl.stopped = true := by
        rw [same]
        exact stopping.2
      unfold Region.Stopping Region.left
      rw [stage', here, visits]
      cases result with
      | none =>
          exact ⟨⟨by simp, stopped⟩, by simp [RegionEvent.own, RegionEvent.ids, Stage.left]⟩
      | some found => exact ⟨⟨by simp, stopped⟩, Nat.le_refl _⟩
  | check =>
      obtain ⟨here, serves⟩ := step
      obtain ⟨running, held, -, same⟩ := serves.step.1
      have stage' : next.stage = if (next.crawl.visits platform).isSome then .starting
          else .looping := by rw [serves.rest]
      have visits : next.crawl.visits platform =
          if running.visit.pid ∈ now.crawl.store.ram.cohort then
            some { running with checked := true } else none := by
        rw [same, setVisit_visits, if_pos rfl]
      have stopped : next.crawl.stopped = true := by
        rw [same]
        exact stopping.2
      unfold Region.Stopping Region.left
      rw [stage', here, visits, held]
      by_cases member : running.visit.pid ∈ now.crawl.store.ram.cohort
      · rw [if_pos member]
        refine ⟨⟨by simp, stopped⟩, ?_⟩
        show 1 + (running.visit.phase.left + 4) ≤ running.visit.phase.left + 5 + 0
        omega
      · rw [if_neg member]
        refine ⟨⟨by simp, stopped⟩, ?_⟩
        show 1 + 2 ≤ running.visit.phase.left + 5 + 0
        omega
  | start nowMs =>
      obtain ⟨here, braked, ⟨overdue, -, rfl⟩, rfl⟩ := step
      exact stopping.goes here (by simp) fun _ => Nat.le_refl _
  | visit event =>
      obtain ⟨here, -, serves⟩ := step
      have stage' : next.stage = if (next.crawl.visits platform).isSome then .visiting
          else .closing := by rw [serves.rest]
      have fewer := serves.step.1.visits_visit stopping.2
      have stopped : next.crawl.stopped = true := by
        obtain ⟨_, -, -, _, _, -, same⟩ := serves.step.1
        rw [same]
        exact stopping.2
      unfold Region.Stopping Region.left
      rw [stage', here]
      cases visit : next.crawl.visits platform with
      | none =>
          refine ⟨⟨by simp, stopped⟩, ?_⟩
          rw [visit] at fewer
          show 1 + 3 ≤ visitLeft (now.crawl.visits platform) + 3 + _
          omega
      | some running =>
          refine ⟨⟨by simp, stopped⟩, ?_⟩
          rw [visit] at fewer
          show 1 + (visitLeft (some running) + 3) ≤ visitLeft (now.crawl.visits platform) + 3 + _
          omega
  | expand nowMs =>
      obtain ⟨here, braked, ⟨overdue, -, rfl⟩, rfl⟩ := step
      refine stopping.goes here ?_ fun visit => ?_
      · split
        · simp
        · split <;> simp
      · split
        · simp [Stage.left]
        · split
          · exact Nat.le_refl _
          · simp [Stage.left]
  | page entries nowMs =>
      obtain ⟨cursor, here, step⟩ := step
      split at step
      · rw [step]
        exact stopping.goes here (by simp) fun _ => Nat.le_refl _
      · obtain ⟨newly, -, serves⟩ := step
        exact stopping.serves here serves rfl (by simp) fun _ => Nat.le_refl _
  | pageFailed =>
      obtain ⟨cursor, here, rfl⟩ := step
      rw [stopping.2]
      exact stopping.goes here (by simp) fun _ => by simp [Stage.left]
  | advance =>
      obtain ⟨cursor, entries, newly, here, rfl⟩ := step
      refine stopping.goes here ?_ fun visit => ?_
      · split <;> simp
      · split
        · simp [Stage.left]
        · exact Nat.le_refl _
  | rest nowMs =>
      obtain ⟨here, nextDue, -, rfl⟩ := step
      exact stopping.goes here (by simp) fun _ => Nat.le_refl _
  | wake nowMs =>
      obtain ⟨sinceMs, wakeMs, here, -, rfl⟩ := step
      exact stopping.goes here (by simp) fun _ => Nat.le_refl _
  | close =>
      obtain ⟨here, rfl⟩ := step
      exact stopping.goes here (by simp) fun _ => Nat.le_refl _
  | commit nowMs order =>
      exact stopping.serves step.1 step.2 rfl (by simp) fun _ => Nat.le_refl _
  | finish nowMs order =>
      exact stopping.serves step.1 step.2 rfl (by simp) fun _ => Nat.le_refl _

/-! ## A way on -/

/-- A step of a visit that waits for no answer, or else for the failure of a fetch. -/
theorem visitStep_goes (asked : String → Bool) {now : Visiting}
    (unfinished : now.visit.phase ≠ .done) :
    ∃ event next, VisitStep codecs true now event next ∧ next.store.durable = now.store.durable ∧
      (RegionEvent.visit event).drains asked = true ∧
      (RegionEvent.visit event).answers = now.visit.phase.awaits asked ∧
      ∀ matchId given clock failed, event ≠ .store matchId given clock failed := by
  obtain ⟨store, player, own, task, phase⟩ := now
  cases phase with
  | awaiting ids start =>
      exact ⟨.pageFailed 0, ⟨_, _⟩, ⟨frontierPush_ends _ _ _ _ _ _, rfl⟩, rfl, rfl, rfl, by simp⟩
  | listing ids pageLen start =>
      have last : morePages (Visit.deep ⟨player, own, task, .listing ids pageLen start⟩) true
          store.ram ids pageLen start = false := by simp [morePages]
      exact ⟨.list none, ⟨store, Visit.goTo _ _⟩, ⟨last, rfl, rfl⟩, rfl, rfl, rfl, by simp⟩
  | listed ids => exact ⟨.select, ⟨store, Visit.goTo _ _⟩, rfl, rfl, rfl, rfl, by simp⟩
  | fetching ids left =>
      cases left with
      | nil =>
          obtain ⟨tables, ends⟩ := reschedule_ends
            ⟨player, own, task, .fetching ids []⟩ true 0 0 store
          exact ⟨.finish 0 0, ⟨_, _⟩, ⟨ends, rfl⟩, rfl, rfl, rfl, by simp⟩
      | cons first left =>
          cases waits : (first :: left).all asked with
          | true =>
              refine ⟨.fetchFailed first, ⟨store, _⟩, ⟨List.mem_cons_self, rfl⟩, rfl, rfl, ?_,
                by simp⟩
              show true = (!(first :: left).isEmpty && (first :: left).all asked)
              rw [waits]
              rfl
          | false =>
              obtain ⟨matchId, inside, spare⟩ := List.all_eq_false.mp waits
              refine ⟨.skip matchId, ⟨store, _⟩, ⟨rfl, inside, rfl⟩, rfl, ?_, ?_, by simp⟩
              · simpa [RegionEvent.drains, RegionEvent.own] using spare
              · show false = (!(first :: left).isEmpty && (first :: left).all asked)
                rw [waits, Bool.and_false]
  | done => exact (unfinished rfl).elim

/-- The loop takes a step of the server that makes nothing durable. -/
theorem MadeStep.serves {event : Event} {crawl : Crawl}
    (made : MadeStep codecs platforms now.crawl event crawl)
    (durable : crawl.store.durable = now.crawl.store.durable) (stage : Crawl → Stage) :
    now.Serves codecs platforms event stage { now with crawl := crawl, stage := stage crawl } :=
  ⟨made, .kept durable, rfl⟩

/-- **A way on.** A region that is stopping can always take a step of its own, up to the last
commit; it takes an answer only where it waits for one, and then the failure of a fetch will do. -/
theorem Region.Stopping.step (stopping : now.Stopping) (inside : platform ∈ platforms)
    (steady : now.crawl.Steady platforms) (fits : now.Fits platform)
    (mode : now.crawl.mode = .serving) (before : now.stage ≠ .ending) (going : now.stage ≠ .ended)
    (asked : String → Bool) :
    ∃ event next, RegionStep codecs platforms platform now event next ∧
      event.drains asked = true ∧ event.answers = now.awaits asked platform := by
  have held := steady.sound.up (by rw [mode]; nofun)
  have counted := frontierOverdueCount_ends platform 0 brakeOverdueGraceMs
    (show 0 < brakeOnCount * 2 by decide) now.crawl.store
  have waits : ∀ stage, now.stage = stage →
      stage.awaits asked (now.crawl.visits platform) = now.awaits asked platform := by
    intro stage same
    rw [Region.awaits, same]
  cases here : now.stage with
  | down => exact (stopping.1 here).elim
  | looping => exact ⟨.begin 0, _, ⟨here, rfl⟩, rfl, waits _ here⟩
  | seeding league nowS =>
      by_cases last : apexLeagues.length ≤ league
      · exact ⟨.league 0, _, ⟨league, nowS, here, by rw [if_pos last]⟩, rfl, waits _ here⟩
      · exact ⟨.league 0, _, ⟨league, nowS, here, by rw [if_neg last, if_pos stopping.2]⟩, rfl,
          waits _ here⟩
  | listing league nowS => exact ⟨.listFailed 0, _, ⟨league, nowS, here, rfl⟩, rfl, waits _ here⟩
  | seeded nowS => exact ⟨.markSeeded, _, ⟨nowS, here, rfl⟩, rfl, waits _ here⟩
  | backoff wakeMs =>
      exact ⟨.retry wakeMs, _, ⟨wakeMs, here, Nat.le_refl _, rfl⟩, rfl, waits _ here⟩
  | popping =>
      have free : Stage.Fits (now.crawl.visits platform) .popping := here ▸ fits
      obtain ⟨result, after, popped, -⟩ := frontierPopDue_ends platform 0 now.crawl.store
        held.tables.orderly.paired
      have made : MadeStep codecs platforms now.crawl (.popDue platform 0) _ :=
        ⟨⟨mode, inside, free, result, _, popped, rfl⟩, trivial⟩
      exact ⟨.pop 0, _, ⟨here, made.serves rfl _⟩, rfl, waits _ here⟩
  | popped =>
      have waits : Stage.Fits (now.crawl.visits platform) .popped := here ▸ fits
      obtain ⟨running, visit, unchecked, -⟩ := waits
      have made : MadeStep codecs platforms now.crawl (.check platform) _ :=
        ⟨⟨running, visit, unchecked, rfl⟩, trivial⟩
      exact ⟨.check, _, ⟨here, made.serves rfl _⟩, rfl, waits _ here⟩
  | starting => exact ⟨.start 0, _, ⟨here, _, ⟨_, counted, rfl⟩, rfl⟩, rfl, waits _ here⟩
  | visiting =>
      have goes : Stage.Fits (now.crawl.visits platform) .visiting := here ▸ fits
      obtain ⟨running, visit, checked, unfinished⟩ := goes
      obtain ⟨event, next, step, durable, drains, answers, unstored⟩ :=
        @visitStep_goes codecs asked ⟨now.crawl.store, running.visit⟩ unfinished
      have made : MadeStep codecs platforms now.crawl (.visit platform event)
          (Crawl.setVisit { now.crawl with store := next.store } platform
            (running.next event next.visit)) :=
        ⟨⟨running, visit, checked, next.store, next.visit, stopping.2 ▸ step, rfl⟩, trivial⟩
      have awaits : now.awaits asked platform = running.visit.phase.awaits asked := by
        rw [← waits _ here, visit]
        rfl
      exact ⟨.visit event, _, ⟨here, fun matchId given clock failed same =>
        (unstored matchId given clock failed same).elim, made.serves durable _⟩, drains,
        answers.trans awaits.symm⟩
  | expanding => exact ⟨.expand 0, _, ⟨here, _, ⟨_, counted, rfl⟩, rfl⟩, rfl, waits _ here⟩
  | paging cursor => exact ⟨.pageFailed, _, ⟨cursor, here, rfl⟩, rfl, waits _ here⟩
  | paged cursor entries newly =>
      exact ⟨.advance, _, ⟨cursor, entries, newly, here, rfl⟩, rfl, waits _ here⟩
  | idle =>
      obtain ⟨nextDue, found, -⟩ := @frontierNextDue_ends platform _ held.tables.orderly.paired
      exact ⟨.rest 0, _, ⟨here, nextDue, found, rfl⟩, rfl, waits _ here⟩
  | sleeping sinceMs wakeMs =>
      exact ⟨.wake wakeMs, _, ⟨sinceMs, wakeMs, here, Nat.le_refl _, rfl⟩, rfl, waits _ here⟩
  | closing => exact ⟨.close, _, ⟨here, rfl⟩, rfl, waits _ here⟩
  | ending => exact (before here).elim
  | ended => exact (going here).elim

end Steps

/-! ## Runs -/

section Runs

variable {codecs : Codecs} {platforms : List String} {platform : String} {now next : Region}

/-- A region that is up fits its server. -/
theorem Region.reached_up {events : List RegionEvent}
    (run : Run (RegionStep codecs platforms platform) .fresh events now) :
    now.Dozes platform ∧ now.Fits platform := by
  have dozes : now.Dozes platform :=
    Region.invariant ⟨fun up => (up rfl).elim, nofun⟩
      (fun _ _ _ steady _ step held => step.dozes steady held) run
  have fits : now.Fits platform :=
    Region.invariant rfl (fun _ _ _ steady _ step held => step.fits steady held) run
  exact ⟨dozes, fits⟩

/-- Some run leads to this region, and it is stopping. -/
def Region.Leaving (codecs : Codecs) (platforms : List String) (platform : String) (now : Region) :
    Prop :=
  (∃ events, Run (RegionStep codecs platforms platform) .fresh events now) ∧ now.Stopping

/-- **One step** leaves a region on its way out. -/
theorem Region.Leaving.step {event : RegionEvent}
    (leaving : now.Leaving codecs platforms platform)
    (step : RegionStep codecs platforms platform now event next) (alive : event.alive = true) :
    next.Leaving codecs platforms platform ∧
      (if event.own then 1 else 0) + next.left platform ≤
        now.left platform + event.ids := by
  obtain ⟨⟨past, reached⟩, stopping⟩ := leaving
  obtain ⟨held, paid⟩ := step.pays (Region.reached_up reached).1.up stopping alive
  exact ⟨⟨⟨_, reached.append (.cons step (.nil _))⟩, held⟩, paid⟩

end Runs

/-- A step that drains is the region's own, and answers nothing new. -/
theorem RegionEvent.own_of_drains {event : RegionEvent} {asked : String → Bool}
    (drains : event.drains asked = true) : event.own = true ∧ event.ids = 0 := by
  cases event with
  | server event => cases drains
  | visit event =>
      cases event with
      | page page => cases drains
      | _ => exact ⟨rfl, rfl⟩
  | _ => exact ⟨rfl, rfl⟩

/-- **The shutdown drains.** Once the server is told to stop, a region takes no more steps of its
own than its stage allows and than it is answered ids of matches, however its steps are
interleaved with those of the others. Where it does not wait for an answer, it can go on without
one, up to its last commit. And whichever matches it has asked for, it can end if every fetch that
is under way fails: some steps of its own, no more than its stage allows, lead to its last commit,
without another answer and without a match skipped that was asked for. -/
theorem stop_drains {codecs : Codecs} {platforms : List String} {platform : String}
    (inside : platform ∈ platforms) {before : List RegionEvent} {now : Region}
    (reached : Run (RegionStep codecs platforms platform) .fresh before now)
    (stopped : now.crawl.stopped = true) (running : now.stage ≠ .down) (asked : String → Bool) :
    (∀ events next, Run (RegionStep codecs platforms platform) now events next →
      (∀ event ∈ events, event.alive = true) →
        events.countP RegionEvent.own + next.left platform ≤
          now.left platform + (events.map RegionEvent.ids).sum) ∧
      (now.awaits asked platform = false → now.stage ≠ .ending → now.stage ≠ .ended →
        ∃ event next, RegionStep codecs platforms platform now event next ∧
          event.drains asked = true ∧ event.answers = false) ∧
      ∃ events next, Run (RegionStep codecs platforms platform) now events next ∧
        (∀ event ∈ events, event.drains asked = true) ∧
          (next.stage = .ending ∨ next.stage = .ended) ∧ events.length ≤ now.left platform := by
  have leaving : now.Leaving codecs platforms platform := ⟨⟨before, reached⟩, running, stopped⟩
  have way : ∀ {source : Region}, source.Leaving codecs platforms platform →
      source.stage ≠ .ending → source.stage ≠ .ended → ∃ event target,
        RegionStep codecs platforms platform source event target ∧
          event.drains asked = true ∧ event.answers = source.awaits asked platform := by
    intro source held ending ended
    obtain ⟨⟨past, reached⟩, stopping⟩ := held
    obtain ⟨dozes, fits⟩ := Region.reached_up reached
    exact stopping.step inside (Region.steady reached) fits (dozes.up stopping.1) ending ended asked
  refine ⟨fun events next run alive => ?_, fun unasked ending ended => ?_, ?_⟩
  · exact run.paid (fun _ _ _ held step on => held.step step on) alive leaving
  · obtain ⟨event, target, step, drains, answers⟩ := way leaving ending ended
    exact ⟨event, target, step, drains, answers.trans unasked⟩
  · refine drains (fun source held going => ?_) leaving
    obtain ⟨event, target, step, drains, -⟩ := way held (fun ending => going (.inl ending))
      fun ended => going (.inr ended)
    obtain ⟨own, unanswered⟩ := RegionEvent.own_of_drains drains
    have alive : event.alive = true := by
      cases event with
      | server event => cases own
      | _ => rfl
    obtain ⟨left, paid⟩ := held.step step alive
    rw [own, unanswered] at paid
    exact ⟨event, target, step, drains, left, by simp only [↓reduceIte] at paid; omega⟩

/-! ## A visit under way -/

/-- The store once an apex league of one player is enrolled. -/
def apexStore : State :=
  (enroll "EUW1" (apexEntries "CHALLENGER" [⟨"a", 1, 2, 3⟩]) cohortSrcApex 5000
    ⟨firstStore, .never⟩).2.state

def poppedStore : State := (frontierPopDue "EUW1" 5000 ⟨apexStore, .never⟩).2.state

/-- The region visits the player, and is to stop. -/
def visiting (checked : Bool) (stage : Stage) (counts : List Nat) (phase : Phase) : Region :=
  ⟨Crawl.setVisit ⟨poppedStore, .serving, true, fun _ => none⟩ "EUW1"
    (some ⟨⟨"EUW1", 1, ⟨"a", 0⟩, phase⟩, checked, []⟩), .none, .none, stage, false, counts⟩

/-- The region is on its visit. -/
theorem visiting_visits (checked : Bool) (stage : Stage) (counts : List Nat) (phase : Phase) :
    (visiting checked stage counts phase).crawl.visits "EUW1" =
      some ⟨⟨"EUW1", 1, ⟨"a", 0⟩, phase⟩, checked, []⟩ := by
  rw [visiting, setVisit_visits, if_pos rfl]

/-- The visit goes on. -/
theorem visiting_step {counts : List Nat} {phase phase' : Phase} {event : VisitEvent}
    (alive : phase' ≠ .done)
    (quiet : ∀ matchId given clock failed, event ≠ .store matchId given clock failed)
    (kept : Running.givenUp ⟨⟨"EUW1", 1, ⟨"a", 0⟩, phase⟩, true, []⟩ event = [])
    (step : VisitStep shortCodecs true ⟨poppedStore, "EUW1", 1, ⟨"a", 0⟩, phase⟩ event
      ⟨poppedStore, "EUW1", 1, ⟨"a", 0⟩, phase'⟩) :
    RegionStep shortCodecs ["EUW1"] "EUW1" (visiting true .visiting counts phase) (.visit event)
      (visiting true .visiting counts phase') := by
  have next : (visiting true .visiting counts phase').crawl =
      Crawl.setVisit { (visiting true .visiting counts phase).crawl with store := poppedStore }
        "EUW1" (Running.next ⟨⟨"EUW1", 1, ⟨"a", 0⟩, phase⟩, true, []⟩ event
          ⟨"EUW1", 1, ⟨"a", 0⟩, phase'⟩) := by
    rw [Running.next, if_neg alive, kept]
    simp only [visiting, Crawl.setVisit, Function.update_idem]
  have made : MadeStep shortCodecs ["EUW1"] (visiting true .visiting counts phase).crawl
      (.visit "EUW1" event) (visiting true .visiting counts phase').crawl :=
    ⟨⟨_, visiting_visits true .visiting counts phase, rfl, poppedStore, _, step, next⟩, trivial⟩
  have same : (if ((visiting true .visiting counts phase').crawl.visits "EUW1").isSome
      then Stage.visiting else .closing) = .visiting := by
    rw [visiting_visits]
    rfl
  refine ⟨rfl, fun matchId given clock failed here => (quiet _ _ _ _ here).elim, made,
    .kept rfl, ?_⟩
  rw [same]
  rfl

/-- The player is popped and looked up. -/
theorem visiting_started : ∃ events, Run (RegionStep shortCodecs ["EUW1"] "EUW1") .fresh events
    (visiting true .visiting [0, 0] (.awaiting [] 0)) := by
  obtain ⟨past, seeding⟩ := seeding_reached
  have enrolled : Ends (enroll "EUW1" (apexEntries "CHALLENGER" [⟨"a", 1, 2, 3⟩]) cohortSrcApex
      5000) firstStore 1 apexStore := .of_eq (by decide +kernel) (by decide +kernel)
  have popped : Ends (frontierPopDue "EUW1" 5000) apexStore (some (0, 1, ⟨"a", 0⟩)) poppedStore :=
    .of_eq (by decide +kernel) (by decide +kernel)
  have member : 1 ∈ poppedStore.ram.cohort := by decide +kernel
  have asks : RegionStep shortCodecs ["EUW1"] "EUW1"
      (stopping firstStore false (.seeding 0 5) []) (.league 5000)
      (stopping firstStore false (.listing 0 5) [0]) := ⟨0, 5, rfl, _, ⟨0, rfl, rfl⟩, rfl⟩
  have listed : RegionStep shortCodecs ["EUW1"] "EUW1"
      (stopping firstStore false (.listing 0 5) [0]) (.listed [⟨"a", 1, 2, 3⟩] 5000)
      (stopping apexStore false (.seeding 1 5) [0]) :=
    ⟨0, 5, ("challengerleagues", "CHALLENGER"), rfl, rfl,
      ⟨⟨rfl, List.mem_singleton_self _, rfl, 1, apexStore, enrolled, rfl⟩, .inl rfl⟩,
      .kept rfl, rfl⟩
  have stopped : RegionStep shortCodecs ["EUW1"] "EUW1"
      (stopping apexStore false (.seeding 1 5) [0]) (.server .stop)
      (stopping apexStore true (.seeding 1 5) [0]) :=
    ⟨rfl, nofun, _, _, ⟨⟨rfl, rfl⟩, trivial⟩, .kept rfl, rfl⟩
  have skipped : RegionStep shortCodecs ["EUW1"] "EUW1"
      (stopping apexStore true (.seeding 1 5) [0]) (.league 5000)
      (stopping apexStore true .popping [0]) := ⟨1, 5, rfl, rfl⟩
  have pops : RegionStep shortCodecs ["EUW1"] "EUW1" (stopping apexStore true .popping [0])
      (.pop 5000) (visiting false .popped [0] (.awaiting [] 0)) := by
    refine ⟨rfl, ⟨⟨rfl, List.mem_singleton_self _, rfl, _, poppedStore, popped, rfl⟩, trivial⟩,
      .kept rfl, ?_⟩
    rw [visiting_visits]
    rfl
  have checks : RegionStep shortCodecs ["EUW1"] "EUW1"
      (visiting false .popped [0] (.awaiting [] 0)) .check
      (visiting true .starting [0] (.awaiting [] 0)) := by
    have goes : (visiting true .starting [0] (.awaiting [] 0)).crawl =
        (visiting false .popped [0] (.awaiting [] 0)).crawl.setVisit "EUW1"
          (some ⟨⟨"EUW1", 1, ⟨"a", 0⟩, .awaiting [] 0⟩, true, []⟩) := by
      simp only [visiting, Crawl.setVisit, Function.update_idem]
    refine ⟨rfl, ⟨⟨_, visiting_visits false .popped [0] (.awaiting [] 0), rfl,
      goes.trans (congrArg _ (if_pos member).symm)⟩, trivial⟩, .kept rfl, ?_⟩
    rw [visiting_visits]
    rfl
  have starts : RegionStep shortCodecs ["EUW1"] "EUW1"
      (visiting true .starting [0] (.awaiting [] 0)) (.start 5000)
      (visiting true .visiting [0, 0] (.awaiting [] 0)) :=
    ⟨rfl, _, ⟨0, .of_eq (by decide +kernel) (by decide +kernel), rfl⟩, rfl⟩
  exact ⟨_, seeding.append (.cons asks (.cons listed (.cons stopped (.cons skipped (.cons pops
    (.cons checks (.cons starts (.nil _))))))))⟩

/-- The list of the player has one new match. -/
theorem visiting_reached : ∃ events, Run (RegionStep shortCodecs ["EUW1"] "EUW1") .fresh events
    (visiting true .visiting [0, 0] (.fetching ["EUW1_7"] ["EUW1_7"])) := by
  obtain ⟨past, started⟩ := visiting_started
  have new : newIds "EUW1" poppedStore.ram ["EUW1_7"] = ["EUW1_7"] := by decide +kernel
  have paged := @visiting_step [0, 0] (.awaiting [] 0) (.listing ["EUW1_7"] 1 100)
    (.page ["EUW1_7"]) Phase.noConfusion (by simp) rfl rfl
  have listed := @visiting_step [0, 0] (.listing ["EUW1_7"] 1 100) (.listed ["EUW1_7"])
    (.list none) Phase.noConfusion (by simp) rfl ⟨rfl, rfl, rfl⟩
  have selected := @visiting_step [0, 0] (.listed ["EUW1_7"]) (.fetching ["EUW1_7"] ["EUW1_7"])
    .select Phase.noConfusion (by simp) rfl (by
      rw [← new]
      rfl)
  exact ⟨_, started.append (.cons paged (.cons listed (.cons selected (.nil _))))⟩

/-- The match is under way, and its fetch fails. -/
theorem stop_drains_fetching : ∃ events next,
    Run (RegionStep shortCodecs ["EUW1"] "EUW1")
        (visiting true .visiting [0, 0] (.fetching ["EUW1_7"] ["EUW1_7"])) events next ∧
      (∀ event ∈ events, event.drains (fun _ => true) = true) ∧
        (next.stage = .ending ∨ next.stage = .ended) ∧ events.length ≤ 5 := by
  obtain ⟨past, reached⟩ := visiting_reached
  exact (stop_drains (List.mem_singleton_self _) reached rfl Stage.noConfusion fun _ => true).2.2

end LolCrawler.Server
