import LolCrawler.Foundation.Hysteresis
import LolCrawler.Server.Saved
import LolCrawler.Store.Idle

/-! # The loop of a region

A pass of the loop seeds the apex leagues if their time has come, pops a task and visits the
player, and if there is none reads a page of the ladder or sleeps. What it does to the store
is the step of the server of the same name; the other regions take their steps in between.
The loop keeps two values in the database: when it last seeded, and a cursor into the ladder.

The brake is on from the moment that enough tasks are overdue until few are.

Database errors are not modelled. In the source those of popping, sleeping and committing end the
loop, and those of the brake, the two values and `enroll` are a failure to seed or to expand:
a page can then be half enrolled, with the cursor where it was.
-/

namespace LolCrawler.Server

open Foundation Segment Store

def brakeOverdueGraceMs : Nat := 2 * 3600 * 1000

def brakeOnCount : Nat := 500

def brakeOffCount : Nat := 100

def seedIntervalSecs : Nat := 6 * 3600

/-- The apex leagues and their tiers. -/
def apexLeagues : List (String × String) :=
  [("challengerleagues", "CHALLENGER"), ("grandmasterleagues", "GRANDMASTER"),
    ("masterleagues", "MASTER")]

/-- Tiers and divisions of the ladder. -/
def expansionBands : List (String × String) :=
  [("DIAMOND", "I"), ("DIAMOND", "II"), ("DIAMOND", "III"), ("DIAMOND", "IV"),
    ("EMERALD", "I"), ("EMERALD", "II"), ("EMERALD", "III"), ("EMERALD", "IV")]

structure LeagueListEntry where
  puuid : String
  leaguePoints : Int32
  wins : Int32
  losses : Int32
deriving DecidableEq

structure LeagueEntry where
  puuid : String
  tier : String
  rank : String
  leaguePoints : Int32
  wins : Int32
  losses : Int32
deriving DecidableEq

/-- Whom an apex league lists. -/
def apexEntries (tier : String) (list : List LeagueListEntry) : List (String × RankSnap) :=
  (list.filter fun entry => !entry.puuid.isEmpty).map fun entry =>
    (entry.puuid, ⟨tier, "I", entry.leaguePoints, entry.wins, entry.losses⟩)

/-- Whom a page of the ladder lists. -/
def ladderEntries (entries : List LeagueEntry) : List (String × RankSnap) :=
  entries.map fun entry =>
    (entry.puuid, ⟨entry.tier, entry.rank, entry.leaguePoints, entry.wins, entry.losses⟩)

/-! ## The cursor -/

def bandOf (cursor : Nat) : Nat := cursor / 10000

def pageOf (cursor : Nat) : Nat := max (cursor % 10000) 1

/-- The cursor after the page with these entries. -/
def nextCursor (cursor : Nat) (entries : List LeagueEntry) : Nat :=
  if entries.isEmpty then (bandOf cursor + 1) * 10000 + 1
  else bandOf cursor * 10000 + pageOf cursor + 1

/-- A page of the ladder, as it was answered. -/
structure LadderPage where
  band : Nat
  page : Nat
  entries : List LeagueEntry

/-- What the loop keeps in the database. -/
structure Marks where
  /-- `seed_apex_{platform}` -/
  seeded : Option Nat
  /-- `expand_cursor_{platform}` -/
  cursor : Option Nat
  /-- A history: the pages that the cursor has gone past. -/
  passed : List LadderPage

def Marks.none : Marks := ⟨Option.none, Option.none, []⟩

/-! ## The loop -/

/-- Where the loop is. -/
inductive Stage where
  | down
  /-- The head of the loop. -/
  | looping
  /-- The apex leagues from this one on are to be seeded. -/
  | seeding (league nowS : Nat)
  | listing (league nowS : Nat)
  /-- The leagues are done, and the time is to be written. -/
  | seeded (nowS : Nat)
  | backoff (wakeMs : Nat)
  | popping
  | popped
  /-- The player is a member. -/
  | starting
  | visiting
  | expanding
  | paging (cursor : Nat)
  | paged (cursor : Nat) (entries : List LeagueEntry) (newly : Nat)
  | idle
  | sleeping (sinceMs wakeMs : Nat)
  /-- The end of the pass, where the loop may commit. -/
  | closing
  | ending
  | ended

/-- A region, the server around it, and the values of its loop. Its steps are those without a
database error. -/
structure Region where
  crawl : Crawl
  marks : Marks
  /-- What is durable of these. -/
  saved : Marks
  stage : Stage
  braked : Bool
  /-- A history: the overdue tasks that the brake was told of since the start. -/
  counts : List Nat

/-- An empty data directory. -/
def Region.fresh : Region := ⟨.fresh, .none, .none, .down, false, []⟩

/-- How long the idle loop sleeps. -/
def idleMs (nextDue : Option Nat) (nowMs : Nat) : Nat :=
  nextDue.elim 30000 fun due => min (max (due - nowMs) 1000) 30000

/-- `update_brake`, where this many tasks are overdue. -/
def Region.brake (now : Region) (overdue : Nat) : Region :=
  { now with
    braked :=
      if !now.braked && brakeOnCount ≤ overdue then true
      else if now.braked && overdue ≤ brakeOffCount then false
      else now.braked
    counts := now.counts ++ [overdue] }

inductive RegionEvent where
  /-- A step of the server that is not this region's. -/
  | server (event : Event)
  | begin (nowMs : Nat)
  | league (nowMs : Nat)
  | listed (list : List LeagueListEntry) (nowMs : Nat)
  | listFailed (nowMs : Nat)
  | markSeeded
  | retry (nowMs : Nat)
  | pop (nowMs : Nat)
  | check
  | start (nowMs : Nat)
  | visit (event : VisitEvent)
  | expand (nowMs : Nat)
  | page (entries : List LeagueEntry) (nowMs : Nat)
  | pageFailed
  | advance
  | rest (nowMs : Nat)
  | wake (nowMs : Nat)
  | close
  | commit (nowMs : Nat) (order : List String)
  | finish (nowMs : Nat) (order : List String)

/-- A step that the loop of this region takes. -/
def Event.ofRegion (platform : String) : Event → Bool
  | .popDue other _ | .check other | .visit other _ | .enroll other .. => other = platform
  | _ => false

/-- What a step of the server leaves of the loop. -/
def Region.served (now : Region) (event : Event) (crawl : Crawl) (saved : Marks) : Region :=
  match event with
  | .spawn | .backfill _ =>
      { now with crawl := crawl, saved := saved, stage := .looping, braked := false, counts := [] }
  | .exit .. | .crash _ => ⟨crawl, saved, saved, .down, false, []⟩
  | _ => { now with crawl := crawl, saved := saved }

variable (codecs : Codecs) (platforms : List String) (platform : String)

/-- The loop takes a step of the server, and goes on to a stage that depends on its outcome. -/
structure Region.Serves (now : Region) (event : Event) (stage : Crawl → Stage) (next : Region) :
    Prop where
  step : MadeStep codecs platforms now.crawl event next.crawl
  saving : Saving now.crawl next.crawl now.marks now.saved next.saved
  rest : next =
    { now with crawl := next.crawl, saved := next.saved, stage := stage next.crawl }

/-- The brake is told how many tasks are overdue. -/
def Region.Brakes (now : Region) (nowMs : Nat) (braked : Region) : Prop :=
  ∃ overdue,
    Ends (frontierOverdueCount platform nowMs brakeOverdueGraceMs (brakeOnCount * 2))
      now.crawl.store overdue now.crawl.store ∧ braked = now.brake overdue

/-- One step of the region, or of the server around it. -/
def RegionStep (now : Region) : RegionEvent → Region → Prop
  | .server event, next =>
      event.ofRegion platform = false ∧
        (∀ nowMs order, event = .exit nowMs order → now.stage = .ended) ∧
        ∃ crawl saved, MadeStep codecs platforms now.crawl event crawl ∧
          Saving now.crawl crawl now.marks now.saved saved ∧ next = now.served event crawl saved
  | .begin nowMs, next => now.stage = .looping ∧
      let nowS := nowMs / 1000 % 2 ^ 32
      next =
        { now with
          stage :=
            if now.crawl.stopped then .ending
            else if now.marks.seeded.any fun last => nowS - last < seedIntervalSecs then .popping
            else .seeding 0 nowS }
  | .league nowMs, next => ∃ league nowS, now.stage = .seeding league nowS ∧
      if apexLeagues.length ≤ league then next = { now with stage := .seeded nowS }
      else if now.crawl.stopped then next = { now with stage := .popping }
      else ∃ braked, now.Brakes platform nowMs braked ∧
        next =
          { braked with
            stage := if braked.braked && 0 < league then .seeded nowS else .listing league nowS }
  | .listed list nowMs, next => ∃ league nowS names, now.stage = .listing league nowS ∧
      apexLeagues[league]? = some names ∧
        now.Serves codecs platforms
          (.enroll platform (apexEntries names.2 list) cohortSrcApex nowMs)
          (fun _ => .seeding (league + 1) nowS) next
  | .listFailed nowMs, next => ∃ league nowS, now.stage = .listing league nowS ∧
      next =
        { now with stage := if now.crawl.stopped then .ending else .backoff (nowMs + 30000) }
  | .markSeeded, next => ∃ nowS, now.stage = .seeded nowS ∧
      next = { now with marks := { now.marks with seeded := some nowS }, stage := .popping }
  | .retry nowMs, next => ∃ wakeMs, now.stage = .backoff wakeMs ∧ wakeMs ≤ nowMs ∧
      next = { now with stage := .looping }
  | .pop nowMs, next => now.stage = .popping ∧
      now.Serves codecs platforms (.popDue platform nowMs)
        (fun crawl => if (crawl.visits platform).isSome then .popped else .expanding) next
  | .check, next => now.stage = .popped ∧
      now.Serves codecs platforms (.check platform)
        (fun crawl => if (crawl.visits platform).isSome then .starting else .looping) next
  | .start nowMs, next => now.stage = .starting ∧ ∃ braked, now.Brakes platform nowMs braked ∧
      next = { braked with stage := .visiting }
  | .visit event, next => now.stage = .visiting ∧
      (∀ matchId given clock failed, event = .store matchId given clock failed →
        given.growthPaused = now.braked) ∧
        now.Serves codecs platforms (.visit platform event)
          (fun crawl => if (crawl.visits platform).isSome then .visiting else .closing) next
  | .expand nowMs, next => now.stage = .expanding ∧ ∃ braked, now.Brakes platform nowMs braked ∧
      let cursor := now.marks.cursor.getD 0
      next =
        { braked with
          stage :=
            if braked.braked then .idle
            else if bandOf cursor < expansionBands.length then .paging cursor
            else .idle }
  | .page entries nowMs, next => ∃ cursor, now.stage = .paging cursor ∧
      if entries.isEmpty then next = { now with stage := .paged cursor entries 0 }
      else ∃ newly,
        Ends (enroll platform (ladderEntries entries) cohortSrcLadder nowMs) now.crawl.store newly
            next.crawl.store ∧
          now.Serves codecs platforms
            (.enroll platform (ladderEntries entries) cohortSrcLadder nowMs)
            (fun _ => .paged cursor entries newly) next
  | .pageFailed, next => ∃ cursor, now.stage = .paging cursor ∧
      next = { now with stage := if now.crawl.stopped then .ending else .idle }
  | .advance, next => ∃ cursor entries newly, now.stage = .paged cursor entries newly ∧
      next =
        { now with
          marks :=
            { now.marks with
              cursor := some (nextCursor cursor entries)
              passed := now.marks.passed ++ [⟨bandOf cursor, pageOf cursor, entries⟩] }
          stage := if 0 < newly then .closing else .idle }
  | .rest nowMs, next => now.stage = .idle ∧ ∃ nextDue,
      Ends (frontierNextDue platform) now.crawl.store nextDue now.crawl.store ∧
        next = { now with stage := .sleeping nowMs (nowMs + idleMs nextDue nowMs) }
  | .wake nowMs, next => ∃ sinceMs wakeMs, now.stage = .sleeping sinceMs wakeMs ∧
      wakeMs ≤ nowMs ∧ next = { now with stage := .closing }
  | .close, next => now.stage = .closing ∧ next = { now with stage := .looping }
  | .commit nowMs order, next => now.stage = .closing ∧
      now.Serves codecs platforms (.commit nowMs order) (fun _ => .looping) next
  | .finish nowMs order, next => now.stage = .ending ∧
      now.Serves codecs platforms (.commit nowMs order) (fun _ => .ended) next

/-! ## The server below -/

section Below

variable {codecs} {platforms} {platform} {now next : Region} {event : RegionEvent}

theorem served_crawl (now : Region) (event : Event) (crawl : Crawl) (saved : Marks) :
    (now.served event crawl saved).crawl = crawl := by
  cases event with
  | _ => rfl

/-- The store is as it was, or the server takes a step. -/
theorem RegionStep.crawl (step : RegionStep codecs platforms platform now event next) :
    next.crawl = now.crawl ∨ ∃ event, MadeStep codecs platforms now.crawl event next.crawl := by
  cases event with
  | server event =>
      obtain ⟨-, -, crawl, saved, step, -, rfl⟩ := step
      rw [served_crawl]
      exact .inr ⟨event, step⟩
  | begin nowMs =>
      obtain ⟨-, rfl⟩ := step
      exact .inl rfl
  | league nowMs =>
      obtain ⟨league, nowS, -, step⟩ := step
      split at step
      · exact .inl (by rw [step])
      · split at step
        · exact .inl (by rw [step])
        · obtain ⟨braked, ⟨overdue, -, rfl⟩, rfl⟩ := step
          exact .inl rfl
  | listed list nowMs =>
      obtain ⟨league, nowS, names, -, -, serves⟩ := step
      exact .inr ⟨_, serves.step⟩
  | listFailed nowMs =>
      obtain ⟨league, nowS, -, rfl⟩ := step
      exact .inl rfl
  | markSeeded =>
      obtain ⟨nowS, -, rfl⟩ := step
      exact .inl rfl
  | retry nowMs =>
      obtain ⟨wakeMs, -, -, rfl⟩ := step
      exact .inl rfl
  | pop nowMs => exact .inr ⟨_, step.2.step⟩
  | check => exact .inr ⟨_, step.2.step⟩
  | start nowMs =>
      obtain ⟨-, braked, ⟨overdue, -, rfl⟩, rfl⟩ := step
      exact .inl rfl
  | visit event => exact .inr ⟨_, step.2.2.step⟩
  | expand nowMs =>
      obtain ⟨-, braked, ⟨overdue, -, rfl⟩, rfl⟩ := step
      exact .inl rfl
  | page entries nowMs =>
      obtain ⟨cursor, -, step⟩ := step
      split at step
      · exact .inl (by rw [step])
      · obtain ⟨newly, -, serves⟩ := step
        exact .inr ⟨_, serves.step⟩
  | pageFailed =>
      obtain ⟨cursor, -, rfl⟩ := step
      exact .inl rfl
  | advance =>
      obtain ⟨cursor, entries, newly, -, rfl⟩ := step
      exact .inl rfl
  | rest nowMs =>
      obtain ⟨-, nextDue, -, rfl⟩ := step
      exact .inl rfl
  | wake nowMs =>
      obtain ⟨sinceMs, wakeMs, -, -, rfl⟩ := step
      exact .inl rfl
  | close =>
      obtain ⟨-, rfl⟩ := step
      exact .inl rfl
  | commit nowMs order => exact .inr ⟨_, step.2.step⟩
  | finish nowMs order => exact .inr ⟨_, step.2.step⟩

/-- **A run of the region** is one of the server. -/
theorem Region.crawl_run {start : Region} {events : List RegionEvent}
    (run : Run (RegionStep codecs platforms platform) start events now) :
    ∃ events', Run (MadeStep codecs platforms) start.crawl events' now.crawl := by
  induction run with
  | nil state => exact ⟨[], .nil _⟩
  | cons step run ih =>
      obtain ⟨events', rest⟩ := ih
      rcases step.crawl with same | ⟨event, here⟩
      · exact ⟨events', same ▸ rest⟩
      · exact ⟨event :: events', .cons here rest⟩

/-- What every run of the server keeps. -/
structure Crawl.Steady (platforms : List String) (crawl : Crawl) : Prop where
  sound : crawl.Sound platforms
  players : crawl.mode ≠ .down → SamePlayers crawl.store.ram crawl.store.tables.players

theorem Region.steady {events : List RegionEvent}
    (run : Run (RegionStep codecs platforms platform) .fresh events now) :
    now.crawl.Steady platforms := by
  obtain ⟨events', below⟩ := Region.crawl_run run
  obtain ⟨sound, rooted⟩ := Crawl.Rooted.reached below (fun _ inside => inside) .fresh
    ⟨fun up => (up rfl).elim, .empty⟩
  exact ⟨sound, fun up => (rooted.up up).players⟩

/-- What holds of fresh regions, and is kept by the steps between steady ones, holds in every
run. -/
theorem Region.invariant {holds : Region → Prop} (start : holds .fresh)
    (kept : ∀ now event next, now.crawl.Steady platforms → next.crawl.Steady platforms →
      RegionStep codecs platforms platform now event next → holds now → holds next)
    {events : List RegionEvent}
    (run : Run (RegionStep codecs platforms platform) .fresh events now) : holds now := by
  suffices ∀ {start : Region} {before after : List RegionEvent},
      Run (RegionStep codecs platforms platform) .fresh before start → holds start →
        Run (RegionStep codecs platforms platform) start after now → holds now from
    this (.nil _) start run
  clear run
  intro start before after reached held run
  induction run generalizing before with
  | nil state => exact held
  | cons step run ih =>
      have reached' := reached.append (.cons step (.nil _))
      exact ih reached' (kept _ _ _ (Region.steady reached) (Region.steady reached') step held)

end Below

end LolCrawler.Server
