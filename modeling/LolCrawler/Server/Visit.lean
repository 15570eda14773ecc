import Mathlib.Data.List.Sort
import Mathlib.Data.String.Basic
import LolCrawler.Foundation.Run
import LolCrawler.Server.MatchId
import LolCrawler.Store.Queue
import LolCrawler.Store.Seen

/-! # One visit of a player

A visit fetches the pages of a player's matchlist, then every match on them that is not
seen yet, and reschedules the player. It gives up the store lock whenever it waits for
an answer, so its steps are the parts between two such waits.

The answers of the service are part of the events. A match that it returns is the match
that was asked for. The due time comes from a floating-point estimate and can be any.
-/

namespace LolCrawler.Server

open Foundation Segment Store

def matchlistMaxDepth : Nat := 10000

/-- How many ids a page of the matchlist has at most. -/
def pageSize : Nat := 100

def rankedQueueId : UInt32 := 420

/-! ## Match ids -/

/-- The game of this id is seen, on whatever platform. -/
def seenId (ram : Ram) (matchId : String) : Bool :=
  (splitMatchId matchId).any fun (platform, num) => ram.isSeen platform num

/-- The id is of this platform. -/
def ownId (platform matchId : String) : Bool :=
  (splitMatchId matchId).any fun (other, _) => other = platform

/-! ## The visit -/

/-- Where a visit is. -/
inductive Phase where
  /-- A page was asked for, and these ids are there already. -/
  | awaiting (ids : List String) (start : Nat)
  | listing (ids : List String) (pageLen start : Nat)
  /-- The list is complete, sorted and without duplicates. -/
  | listed (ids : List String)
  /-- These new ids are still to be fetched. -/
  | fetching (ids left : List String)
  | done
deriving DecidableEq

structure Visit where
  platform : String
  pid : Nat
  task : FrontierTask
  phase : Phase

/-- A full-history visit. -/
def Visit.deep (visit : Visit) : Bool := visit.task.lastVisitMs = deepVisitMs

def Visit.goTo (visit : Visit) (phase : Phase) : Visit := { visit with phase := phase }

/-- The paging loop goes on. -/
def morePages (deep stopped : Bool) (ram : Ram) (ids : List String) (pageLen start : Nat) : Bool :=
  pageLen = pageSize && start < matchlistMaxDepth && !stopped &&
    (deep || !((ids.drop (ids.length - pageSize)).any (seenId ram)))

/-- The ids of the list that are to be fetched. -/
def newIds (platform : String) (ram : Ram) (ids : List String) : List String :=
  ids.filter fun matchId => ownId platform matchId && !seenId ram matchId

/-- Players that a match adopts are queued under the same lock. -/
def pushAdopted (platform : String) (nowMs : Nat) : List (Nat × String) → Act Unit
  | [] => pure ()
  | (pid, puuid) :: adopted => do
      frontierPush platform bucketPriority nowMs pid ⟨puuid, 0⟩
      pushAdopted platform nowMs adopted

/-- The adopted who are queued. An error of the raw sample or of a push leaves out the rest. -/
def queuedOf (failed : Option Nat) (adopted : List (Nat × String)) : List (Nat × String) :=
  failed.elim adopted adopted.take

/-- The rank that was fetched beside the first page, if it was. -/
def bufferRank (pid : Nat) : Option (Nat × RankSnap) → Act Unit
  | some (tsMs, snap) => addRankSnapshot pid tsMs snap
  | none => pure ()

/-- The player goes back to the frontier. A deep visit that is cut short by the shutdown keeps its
marker. -/
def reschedule (visit : Visit) (stopped : Bool) (nowMs dueMs : Nat) : Act Unit :=
  if visit.deep && stopped then
    frontierPush visit.platform bucketPriority nowMs visit.pid ⟨visit.task.puuid, deepVisitMs⟩
  else frontierPush visit.platform bucketPriority dueMs visit.pid ⟨visit.task.puuid, nowMs⟩

/-- `run` puts the player back a bit later. -/
def putBack (visit : Visit) (nowMs : Nat) : Act Unit :=
  frontierPush visit.platform bucketPriority (nowMs + 3600 * 1000) visit.pid visit.task

inductive VisitEvent where
  /-- The page that was asked for, or the failure to get it. -/
  | page (ids : List String)
  | pageFailed (nowMs : Nat)
  | nextPage
  /-- The loop is over. -/
  | list (rank : Option (Nat × RankSnap))
  | select
  /-- The server is stopping, and does not fetch. -/
  | skip (matchId : String)
  | fetchFailed (matchId : String)
  /-- No such match, not a match, or a match of another queue or platform. -/
  | mark (matchId : String)
  /-- A match is stored, and then the fetch fails with only so many of the adopted queued, or it
  does not. -/
  | store (matchId : String) (given : Match) (clock : Clock) (failed : Option Nat)
  | finish (nowMs dueMs : Nat)

/-- The store, and a visit that is under way. -/
structure Visiting where
  store : State
  visit : Visit

variable (codecs : Codecs)

/-- One step of a visit. -/
def VisitStep (stopped : Bool) (now : Visiting) (event : VisitEvent) (next : Visiting) : Prop :=
  match event, now.visit.phase with
  | .page page, .awaiting ids start =>
      next = ⟨now.store, now.visit.goTo (.listing (ids ++ page) page.length (start + pageSize))⟩
  | .pageFailed nowMs, .awaiting _ _ =>
      Ends (putBack now.visit nowMs) now.store () next.store ∧ next.visit = now.visit.goTo .done
  | .nextPage, .listing ids pageLen start =>
      morePages now.visit.deep stopped now.store.ram ids pageLen start = true ∧
        next = ⟨now.store, now.visit.goTo (.awaiting ids start)⟩
  | .list rank, .listing ids pageLen start =>
      morePages now.visit.deep stopped now.store.ram ids pageLen start = false ∧
        Ends (bufferRank now.visit.pid rank) now.store () next.store ∧
        next.visit = now.visit.goTo (.listed (ids.insertionSort (· ≤ ·)).dedup)
  | .select, .listed ids =>
      next = ⟨now.store,
        now.visit.goTo (.fetching ids (newIds now.visit.platform now.store.ram ids))⟩
  | .skip matchId, .fetching ids left =>
      stopped = true ∧ matchId ∈ left ∧
        next = ⟨now.store, now.visit.goTo (.fetching ids (left.erase matchId))⟩
  | .fetchFailed matchId, .fetching ids left =>
      matchId ∈ left ∧ next = ⟨now.store, now.visit.goTo (.fetching ids (left.erase matchId))⟩
  | .mark matchId, .fetching ids left =>
      matchId ∈ left ∧ ∃ platform num, splitMatchId matchId = some (platform, num) ∧
        Ends (markSeen .markSeen platform num) now.store () next.store ∧
        next.visit = now.visit.goTo (.fetching ids (left.erase matchId))
  | .store matchId given clock failed, .fetching ids left =>
      matchId ∈ left ∧ splitMatchId matchId = some given.key ∧
        given.record.platform = now.visit.platform ∧ given.record.queueId = rankedQueueId ∧
        given.tsMs = given.record.gameStartMs.toInt.toNat ∧
        (∃ adopted between,
          Ends (storeMatch codecs given.record given.puuids given.tsMs given.growthPaused clock)
            now.store adopted between ∧
          Ends (pushAdopted given.record.platform clock.nowMs (queuedOf failed adopted)) between ()
            next.store) ∧
        next.visit = now.visit.goTo (.fetching ids (left.erase matchId))
  | .finish nowMs dueMs, .fetching _ [] =>
      Ends (reschedule now.visit stopped nowMs dueMs) now.store () next.store ∧
        next.visit = now.visit.goTo .done
  | _, _ => False

/-! ## What the calls of a visit do to the seen games -/

section Seen

variable {state next : State}

/-- The rank waits in memory, and nothing else changes. -/
theorem bufferRank_ends (pid : Nat) (rank : Option (Nat × RankSnap)) (state : State) :
    ∃ pendingRanks, Ends (bufferRank pid rank) state ()
      { state with ram := { state.ram with pendingRanks := pendingRanks } } := by
  cases rank with
  | none => exact ⟨_, rfl⟩
  | some snap => exact ⟨_, rfl⟩

/-- A reschedule ends, and changes the tables only. -/
theorem reschedule_ends (visit : Visit) (stopped : Bool) (nowMs dueMs : Nat) (state : State) :
    ∃ tables, Ends (reschedule visit stopped nowMs dueMs) state () (state.committed tables) := by
  unfold reschedule
  split
  · exact ⟨_, frontierPush_ends _ _ _ _ _ _⟩
  · exact ⟨_, frontierPush_ends _ _ _ _ _ _⟩

/-- Of the adopted some are queued, in order. -/
theorem queuedOf_sublist (failed : Option Nat) (adopted : List (Nat × String)) :
    (queuedOf failed adopted).Sublist adopted := by
  cases failed with
  | none => exact List.Sublist.refl _
  | some queued => exact List.take_sublist queued adopted

/-- The adopted are queued, and the memory is as it was. -/
theorem pushAdopted_ends (platform : String) (nowMs : Nat) (adopted : List (Nat × String))
    (state : State) :
    ∃ after, Ends (pushAdopted platform nowMs adopted) state () after ∧ after.ram = state.ram := by
  induction adopted generalizing state with
  | nil => exact ⟨state, rfl, rfl⟩
  | cons player adopted ih =>
      obtain ⟨pid, puuid⟩ := player
      have pushed := frontierPush_ends platform bucketPriority nowMs pid ⟨puuid, 0⟩ state
      obtain ⟨after, rest, same⟩ := ih (state.committed
        (state.tables.pushed platform bucketPriority nowMs (pid, ⟨puuid, 0⟩)))
      exact ⟨after, pushed.bind rest, same⟩

/-- What holds of the steps of a push holds of the pushes. -/
theorem pushAdopted_steps {edits : (Tables → Tables) → Prop} {memory : (Ram → Ram) → Prop}
    {holds : (α : Type) → Act α → Prop} (steps : Transacts edits memory holds)
    (spares : ∀ edit, SparesPlayers edit → edits edit) (platform : String) (nowMs : Nat)
    (adopted : List (Nat × String)) : holds Unit (pushAdopted platform nowMs adopted) := by
  induction adopted with
  | nil => exact steps.pure _
  | cons player adopted ih =>
      exact steps.bind (steps.frontierPush spares _ _ _ _ _) fun _ => ih

/-- After a match is stored it is seen, besides what was seen before. -/
theorem stored_isSeen {given : Match} {clock : Clock} {platform : String} {gameId : UInt64}
    {adopted : List (Nat × String)} {between : State}
    (stored : Ends (storeMatch codecs given.record given.puuids given.tsMs given.growthPaused clock)
      state adopted between)
    {queued : List (Nat × String)}
    (pushed : Ends (pushAdopted given.record.platform clock.nowMs queued) between () next) :
    next.ram.isSeen platform gameId = true ↔
      state.ram.isSeen platform gameId = true ∨ (platform, gameId) = given.key := by
  obtain ⟨after, ends, same⟩ := pushAdopted_ends given.record.platform clock.nowMs queued between
  rw [(pushed.unique ends).2, same]
  exact storeMatch_isSeen codecs stored

end Seen

/-! ## Visits that nothing disturbs -/

/-- The page of a matchlist that starts here. -/
def pageAt (list : List String) (start : Nat) : List String := (list.drop start).take pageSize

/-- Every fetch succeeds, and the pages are those of one list. -/
def Smooth (list : List String) (now : Visiting) : VisitEvent → Prop
  | .page page => ∀ ids start, now.visit.phase = .awaiting ids start → page = pageAt list start
  | .pageFailed _ | .fetchFailed _ | .skip _ | .store _ _ _ (some _) => False
  | .nextPage | .list _ | .select | .mark _ | .store _ _ _ none | .finish .. => True

/-- A step of a visit on this list, while the server runs. -/
def SmoothStep (list : List String) (now : Visiting) (event : VisitEvent)
    (next : Visiting) : Prop :=
  VisitStep codecs false now event next ∧ Smooth list now event

/-- After a full page with a seen id, the list has no new id of the platform: every one is seen, or
is another spelling of one on the pages before. -/
def Covered (platform : String) (ram : Ram) (list : List String) : Prop :=
  ∀ start, pageSize ∣ start → (pageAt list start).length = pageSize →
    (∃ matchId ∈ pageAt list start, seenId ram matchId = true) →
    ∀ matchId ∈ list.drop (start + pageSize), ownId platform matchId = true →
      seenId ram matchId = true ∨
        ∃ other ∈ list.take (start + pageSize), splitMatchId other = splitMatchId matchId

/-- No page before this start has a seen id. -/
def FreshBefore (list : List String) (ram : Ram) (start : Nat) : Prop :=
  ∀ earlier, pageSize ∣ earlier → earlier < start →
    ∀ matchId ∈ pageAt list earlier, seenId ram matchId = false

/-- The ids are those up to the end of a page: the last page, or the first one with a seen id. -/
def Taken (list : List String) (ram : Ram) (ids : List String) : Prop :=
  ∃ stop, pageSize ∣ stop ∧ (∀ matchId, matchId ∈ ids ↔ matchId ∈ list.take (stop + pageSize)) ∧
    FreshBefore list ram stop ∧
    (list.length ≤ stop + pageSize ∨ (pageAt list stop).length = pageSize ∧
      ∃ matchId ∈ pageAt list stop, seenId ram matchId = true)

/-- What has been fetched so far is seen, and nothing else is. -/
structure Fetched (platform : String) (before now : Ram) (ids left : List String) : Prop where
  inside : ∀ matchId ∈ left, matchId ∈ ids
  own : ∀ matchId ∈ ids, ownId platform matchId = true → seenId now matchId = true ∨ matchId ∈ left
  kept : ∀ other num, before.isSeen other num = true → now.isSeen other num = true
  only : ∀ other num, now.isSeen other num = true → before.isSeen other num = true ∨
    ∃ matchId ∈ ids, splitMatchId matchId = some (other, num)

/-- What holds along an undisturbed visit. -/
def Along (list : List String) (platform : String) (before now : Ram) : Phase → Prop
  | .awaiting ids start =>
      now.seen = before.seen ∧ pageSize ∣ start ∧ ids = list.take start ∧
        FreshBefore list before start
  | .listing ids pageLen start =>
      now.seen = before.seen ∧ ∃ last, start = last + pageSize ∧ pageSize ∣ last ∧
        ids = list.take start ∧ pageLen = (pageAt list last).length ∧ FreshBefore list before last
  | .listed ids => now.seen = before.seen ∧ Taken list before ids
  | .fetching ids left => Taken list before ids ∧ Fetched platform before now ids left
  | .done => ∃ ids, Taken list before ids ∧ Fetched platform before now ids []

section Smooth

variable {list ids left : List String} {platform : String} {before now after : Ram}

/-- The pages are put together in order. -/
theorem take_pageAt (list : List String) (start : Nat) :
    list.take start ++ pageAt list start = list.take (start + pageSize) := List.take_add.symm

/-- A full page is inside the list. -/
theorem length_pageAt {start : Nat} (full : (pageAt list start).length = pageSize) :
    start + pageSize ≤ list.length := by
  rw [pageAt, List.length_take, List.length_drop] at full
  have positive : 0 < pageSize := by decide
  omega

/-- The last page, as the loop looks it up. -/
theorem drop_take_pageAt {start : Nat} (full : (pageAt list start).length = pageSize) :
    (list.take (start + pageSize)).drop ((list.take (start + pageSize)).length - pageSize) =
      pageAt list start := by
  have long := length_pageAt full
  have length : (list.take (start + pageSize)).length = start + pageSize := by
    rw [List.length_take]
    omega
  rw [length, Nat.add_sub_cancel, pageAt, List.drop_take, Nat.add_sub_cancel_left]

/-- An id is seen if the bitmaps say so. -/
theorem seenId_congr {matchId : String} (same : after.seen = now.seen) :
    seenId after matchId = seenId now matchId := by
  unfold seenId
  cases splitMatchId matchId with
  | none => rfl
  | some key => exact isSeen_congr same

/-- The next page is fresh as well. -/
theorem FreshBefore.next {start : Nat} (fresh : FreshBefore list before start)
    (multiple : pageSize ∣ start)
    (here : ∀ matchId ∈ pageAt list start, seenId before matchId = false) :
    FreshBefore list before (start + pageSize) := by
  intro earlier divides below
  obtain ⟨first, rfl⟩ := multiple
  obtain ⟨second, rfl⟩ := divides
  have order : second < first + 1 := by
    apply Nat.lt_of_mul_lt_mul_left (a := pageSize)
    rw [Nat.mul_add, Nat.mul_one]
    exact below
  rcases Nat.lt_succ_iff_lt_or_eq.mp order with less | same
  · exact fresh _ ⟨second, rfl⟩ ((Nat.mul_lt_mul_left (by decide)).mpr less)
  · rw [same]
    exact here

/-- The loop ends at the last page, or at the first page with a seen id. -/
theorem taken_of_over {last : Nat} (short : list.length < matchlistMaxDepth)
    (multiple : pageSize ∣ last) (same : now.seen = before.seen)
    (fresh : FreshBefore list before last)
    (ended : morePages false false now (list.take (last + pageSize)) (pageAt list last).length
      (last + pageSize) = false) :
    Taken list before ((list.take (last + pageSize)).insertionSort (· ≤ ·)).dedup := by
  refine ⟨last, multiple, fun matchId => ?_, fresh, ?_⟩
  · rw [List.mem_dedup, List.mem_insertionSort]
  · by_cases full : (pageAt list last).length = pageSize
    · by_cases deep : last + pageSize < matchlistMaxDepth
      · right
        refine ⟨full, ?_⟩
        simp only [morePages, full, deep, decide_true, Bool.and_self, Bool.not_false,
          Bool.false_or, Bool.true_and, Bool.not_eq_false'] at ended
        rw [drop_take_pageAt full, List.any_eq_true] at ended
        obtain ⟨matchId, inside, seen⟩ := ended
        rw [seenId_congr same] at seen
        exact ⟨matchId, inside, seen⟩
      · left
        omega
    · left
      rw [pageAt, List.length_take, List.length_drop] at full
      omega

/-- At first all new ids are left. -/
theorem Fetched.new (same : now.seen = before.seen) :
    Fetched platform before now ids (newIds platform now ids) where
  inside matchId inside := (List.mem_filter.mp inside).1
  own matchId inside own := by
    cases seen : seenId now matchId with
    | true => exact .inl rfl
    | false =>
        right
        rw [newIds, List.mem_filter, own, seen]
        exact ⟨inside, rfl⟩
  kept other num seen := by
    rw [isSeen_congr same]
    exact seen
  only other num seen := by
    rw [isSeen_congr same] at seen
    exact .inl seen

/-- A game that was fetched is seen. -/
theorem Fetched.fetch {matchId : String} {key : String × UInt64}
    (fetched : Fetched platform before now ids left) (waits : matchId ∈ left)
    (split : splitMatchId matchId = some key)
    (marks : ∀ other num, after.isSeen other num = true ↔
      now.isSeen other num = true ∨ (other, num) = key) :
    Fetched platform before after ids (left.erase matchId) where
  inside other inside := fetched.inside other (List.mem_of_mem_erase inside)
  own other inside own := by
    rcases fetched.own other inside own with seen | waiting
    · left
      rw [seenId, Option.any_eq_true] at seen ⊢
      obtain ⟨game, here, seen⟩ := seen
      exact ⟨game, here, (marks _ _).mpr (.inl seen)⟩
    · by_cases same : other = matchId
      · left
        rw [same, seenId, split, Option.any_some]
        exact (marks _ _).mpr (.inr rfl)
      · exact .inr ((List.mem_erase_of_ne same).mpr waiting)
  kept other num seen := (marks other num).mpr (.inl (fetched.kept other num seen))
  only other num seen := by
    rcases (marks other num).mp seen with seen | same
    · exact fetched.only other num seen
    · right
      rw [same]
      exact ⟨matchId, fetched.inside matchId waits, split⟩

end Smooth

/-- What holds of an undisturbed visit, wherever it is. -/
structure Undisturbed (list : List String) (platform : String) (before : Ram) (now : Visiting) :
    Prop where
  own : now.visit.platform = platform
  normal : now.visit.deep = false
  along : Along list platform before now.store.ram now.visit.phase

/-- **One step of an undisturbed visit.** -/
theorem Undisturbed.step {list : List String} {platform : String} {before : Ram}
    {now next : Visiting} {event : VisitEvent} (short : list.length < matchlistMaxDepth)
    (held : Undisturbed list platform before now) (step : SmoothStep codecs list now event next) :
    Undisturbed list platform before next := by
  obtain ⟨own, normal, along⟩ := held
  obtain ⟨step, smooth⟩ := step
  obtain ⟨store, visit⟩ := now
  obtain ⟨visitPlatform, pid, task, phase⟩ := visit
  simp only at own normal along
  subst own
  cases event with
  | page page =>
      cases phase with
      | awaiting ids start =>
          have same : page = pageAt list start := smooth ids start rfl
          obtain ⟨seen, multiple, rfl, fresh⟩ := along
          cases step
          refine ⟨rfl, normal, seen, start, rfl, multiple, ?_, by rw [same], fresh⟩
          rw [same, take_pageAt]
      | _ => exact step.elim
  | pageFailed nowMs => exact smooth.elim
  | nextPage =>
      cases phase with
      | listing ids pageLen start =>
          obtain ⟨more, rfl⟩ := step
          obtain ⟨seen, last, rfl, multiple, rfl, rfl, fresh⟩ := along
          simp only [morePages, normal, Bool.false_or, Bool.not_false, Bool.and_true,
            Bool.and_eq_true, decide_eq_true_eq, Bool.not_eq_true'] at more
          obtain ⟨⟨full, -⟩, unseen⟩ := more
          rw [drop_take_pageAt full, List.any_eq_false] at unseen
          refine ⟨rfl, normal, seen, Nat.dvd_add multiple (Nat.dvd_refl _), rfl,
            fresh.next multiple fun matchId inside => ?_⟩
          rw [← seenId_congr seen, ← Bool.not_eq_true]
          exact unseen matchId inside
      | _ => exact step.elim
  | list rank =>
      cases phase with
      | listing ids pageLen start =>
          obtain ⟨ended, buffered, moved⟩ := step
          obtain ⟨seen, last, rfl, multiple, rfl, rfl, fresh⟩ := along
          obtain ⟨_, ends⟩ := bufferRank_ends pid rank store
          rw [normal] at ended
          refine ⟨by rw [moved]; rfl, by rw [moved]; exact normal, ?_⟩
          rw [moved, (buffered.unique ends).2]
          exact ⟨seen, taken_of_over short multiple seen fresh ended⟩
      | _ => exact step.elim
  | select =>
      cases phase with
      | listed ids =>
          cases step
          exact ⟨rfl, normal, along.2, Fetched.new along.1⟩
      | _ => exact step.elim
  | skip matchId => exact smooth.elim
  | fetchFailed matchId => exact smooth.elim
  | mark matchId =>
      cases phase with
      | fetching ids left =>
          obtain ⟨waits, platform, num, split, marked, moved⟩ := step
          refine ⟨by rw [moved]; rfl, by rw [moved]; exact normal, ?_⟩
          rw [moved, (marked.unique (markSeen_ends .markSeen platform num store)).2]
          exact ⟨along.1, along.2.fetch waits split fun _ _ => isSeen_mark⟩
      | _ => exact step.elim
  | store matchId given clock failed =>
      cases phase with
      | fetching ids left =>
          obtain ⟨waits, split, -, -, -, ⟨adopted, between, stored, pushed⟩, moved⟩ := step
          refine ⟨by rw [moved]; rfl, by rw [moved]; exact normal, ?_⟩
          rw [moved]
          exact ⟨along.1, along.2.fetch waits split fun _ _ => stored_isSeen codecs stored pushed⟩
      | _ => exact step.elim
  | finish nowMs dueMs =>
      cases phase with
      | fetching ids left =>
          cases left with
          | nil =>
              obtain ⟨ends, moved⟩ := step
              refine ⟨by rw [moved]; rfl, by rw [moved]; exact normal, ?_⟩
              obtain ⟨_, rescheduled⟩ :=
                reschedule_ends ⟨visitPlatform, pid, task, .fetching ids []⟩
                false nowMs dueMs store
              rw [moved, (ends.unique rescheduled).2]
              exact ⟨ids, along⟩
          | cons => exact step.elim
      | _ => exact step.elim

/-- Two ids that split alike are of the same platform. -/
theorem ownId_of_split {platform matchId other : String}
    (same : splitMatchId other = splitMatchId matchId)
    (own : ownId platform matchId = true) : ownId platform other = true := by
  rw [ownId, same]
  exact own

/-- A page with a seen id that starts before the last one taken is the last one taken. -/
theorem Taken.stops {list ids : List String} {ram : Ram} {start : Nat}
    (taken : Taken list ram ids) (multiple : pageSize ∣ start)
    (seen : ∃ matchId ∈ pageAt list start, seenId ram matchId = true) :
    ∀ other ∈ ids, other ∈ list.take (start + pageSize) := by
  obtain ⟨stop, divides, members, fresh, ends⟩ := taken
  obtain ⟨found, inside, seen⟩ := seen
  have late : stop ≤ start := by
    by_contra early
    rw [fresh start multiple (by omega) found inside] at seen
    cases seen
  intro other here
  exact List.take_subset_take_left _ (by omega) ((members other).mp here)

/-- **A normal visit.** When its fetches succeed and the server runs, every id of the platform on
the player's list is seen after the visit, if and only if there was no new one after a full page
with a seen id. -/
theorem visit_sees_all_iff {list : List String} (short : list.length < matchlistMaxDepth)
    {state : State} {platform : String} {pid : Nat} {task : FrontierTask}
    (normal : task.lastVisitMs ≠ deepVisitMs) {events : List VisitEvent} {final : Visiting}
    (run : Run (SmoothStep codecs list) ⟨state, ⟨platform, pid, task, .awaiting [] 0⟩⟩ events final)
    (done : final.visit.phase = .done) :
    (∀ matchId ∈ list, ownId platform matchId = true → seenId final.store.ram matchId = true) ↔
      Covered platform state.ram list := by
  have started : Undisturbed list platform state.ram
      ⟨state, ⟨platform, pid, task, .awaiting [] 0⟩⟩ :=
    ⟨rfl, decide_eq_false normal, rfl, Nat.dvd_zero _, rfl, fun _ _ below =>
      absurd below (by omega)⟩
  have held : Undisturbed list platform state.ram final :=
    run.invariant (Undisturbed list platform state.ram)
      (fun _ _ _ held step => held.step codecs short step)
      started
  have along := held.along
  rw [done] at along
  obtain ⟨ids, taken, fetched⟩ := along
  constructor
  · intro all start multiple full seen matchId beyond own
    have late := all matchId (List.mem_of_mem_drop beyond) own
    rw [seenId, Option.any_eq_true] at late
    obtain ⟨⟨other, num⟩, split, late⟩ := late
    rcases fetched.only other num late with before | ⟨spelt, inside, same⟩
    · left
      rw [seenId, split]
      exact before
    · exact .inr ⟨spelt, taken.stops multiple seen spelt inside, same.trans split.symm⟩
  · intro covered matchId inside own
    have own_seen : ∀ other ∈ ids, ownId platform other = true →
        seenId final.store.ram other = true := fun other there mine =>
      (fetched.own other there mine).resolve_right nofun
    by_cases there : matchId ∈ ids
    · exact own_seen matchId there own
    · obtain ⟨stop, multiple, members, -, ends⟩ := taken
      have beyond : matchId ∈ list.drop (stop + pageSize) := by
        rw [← List.take_append_drop (stop + pageSize) list, List.mem_append] at inside
        exact inside.resolve_left fun early => there ((members matchId).mpr early)
      rcases ends with all | ⟨full, seen⟩
      · rw [List.drop_eq_nil_of_le all] at beyond
        cases beyond
      · rcases covered stop multiple full seen matchId beyond own with before | ⟨other, early, same⟩
        · rw [seenId, Option.any_eq_true] at before ⊢
          obtain ⟨⟨pf, num⟩, split, before⟩ := before
          exact ⟨(pf, num), split, fetched.kept pf num before⟩
        · have seen := own_seen other ((members other).mpr early) (ownId_of_split same own)
          rw [seenId, same] at seen
          exact seen

/-- More games than a page has. -/
def sharedGames : List String := (List.range 101).map fun age => "EUW1_" ++ toString (500 - age)

/-- The shared games are a page and one. -/
theorem length_sharedGames : sharedGames.length = 101 := by
  rw [sharedGames, List.length_map, List.length_range]

/-- The first page of them is full. -/
theorem length_firstPage : (pageAt sharedGames 0).length = 100 := by
  rw [pageAt, List.length_take, List.length_drop, length_sharedGames]
  rfl

/-- On an empty store nothing is seen. -/
theorem unseen_empty (matchId : String) : seenId State.empty.ram matchId = false := by
  rw [seenId]
  cases splitMatchId matchId with
  | none => rfl
  | some key => rfl

/-- A full page of new games is not the last one. -/
theorem unseen_goes :
    morePages false false State.empty.ram (pageAt sharedGames 0) 100 100 = true := by
  have fresh : ((pageAt sharedGames 0).drop ((pageAt sharedGames 0).length - pageSize)).any
      (seenId State.empty.ram) = false := List.any_eq_false.mpr fun matchId _ => by
    rw [unseen_empty]
    exact Bool.false_ne_true
  rw [morePages, fresh]
  rfl

/-- No match of the list exists any more: each is marked seen. -/
theorem marks_run (list ids : List String) (platform : String) (pid : Nat) (task : FrontierTask)
    {left : List String} (named : ∀ matchId ∈ left, (splitMatchId matchId).isSome) (state : State) :
    ∃ events final, Run (SmoothStep codecs list) ⟨state, ⟨platform, pid, task, .fetching ids left⟩⟩
      events ⟨final, ⟨platform, pid, task, .fetching ids []⟩⟩ := by
  induction left generalizing state with
  | nil => exact ⟨[], state, .nil _⟩
  | cons matchId left ih =>
      obtain ⟨⟨other, num⟩, split⟩ := Option.isSome_iff_exists.mp (named matchId List.mem_cons_self)
      obtain ⟨events, final, rest⟩ := ih
        (fun later inside => named later (List.mem_cons_of_mem _ inside))
        { state with ram := state.ram.mark .markSeen other num }
      have marks : SmoothStep codecs list
          ⟨state, ⟨platform, pid, task, .fetching ids (matchId :: left)⟩⟩ (.mark matchId)
          ⟨{ state with ram := state.ram.mark .markSeen other num },
            ⟨platform, pid, task, .fetching ids left⟩⟩ := by
        have goes := markSeen_ends .markSeen other num state
        refine ⟨⟨List.mem_cons_self, other, num, split, goes, ?_⟩, trivial⟩
        simp only [Visit.goTo, List.erase_cons_head]
      exact ⟨_, final, .cons marks rest⟩

/-- All games are new, so the visit goes on to the second page. -/
theorem visit_sees_all_iff_paged :
    ∃ events final, Run (SmoothStep shortCodecs sharedGames)
        ⟨State.empty, ⟨"EUW1", 1, ⟨"a", 0⟩, .awaiting [] 0⟩⟩ events final ∧
      ∀ matchId ∈ sharedGames, ownId "EUW1" matchId = true →
        seenId final.store.ram matchId = true := by
  let visit : Phase → Visit := fun phase => ⟨"EUW1", 1, ⟨"a", 0⟩, phase⟩
  let ids := pageAt sharedGames 0 ++ pageAt sharedGames 100
  let sorted := (ids.insertionSort (· ≤ ·)).dedup
  let left := newIds "EUW1" State.empty.ram sorted
  have full : (pageAt sharedGames 0).length = 100 := length_firstPage
  have short : (pageAt sharedGames 100).length = 1 := by
    rw [pageAt, List.length_take, List.length_drop, length_sharedGames]
    rfl
  have ends : morePages false false State.empty.ram ids 1 200 = false := rfl
  have first : SmoothStep shortCodecs sharedGames ⟨State.empty, visit (.awaiting [] 0)⟩
      (.page (pageAt sharedGames 0))
      ⟨State.empty, visit (.listing (pageAt sharedGames 0) 100 100)⟩ := by
    refine ⟨?_, fun before start here => ?_⟩
    · simp only [VisitStep, visit, Visit.goTo, List.nil_append, full, pageSize, Nat.zero_add]
    · cases here
      rfl
  have second : SmoothStep shortCodecs sharedGames
      ⟨State.empty, visit (.listing (pageAt sharedGames 0) 100 100)⟩ .nextPage
      ⟨State.empty, visit (.awaiting (pageAt sharedGames 0) 100)⟩ := ⟨⟨unseen_goes, rfl⟩, trivial⟩
  have third : SmoothStep shortCodecs sharedGames
      ⟨State.empty, visit (.awaiting (pageAt sharedGames 0) 100)⟩ (.page (pageAt sharedGames 100))
      ⟨State.empty, visit (.listing ids 1 200)⟩ := by
    refine ⟨?_, fun before start here => ?_⟩
    · simp only [VisitStep, visit, Visit.goTo, short, pageSize, ids]
    · cases here
      rfl
  have fourth : SmoothStep shortCodecs sharedGames ⟨State.empty, visit (.listing ids 1 200)⟩
      (.list none) ⟨State.empty, visit (.listed sorted)⟩ := ⟨⟨ends, rfl, rfl⟩, trivial⟩
  have fifth : SmoothStep shortCodecs sharedGames ⟨State.empty, visit (.listed sorted)⟩ .select
      ⟨State.empty, visit (.fetching sorted left)⟩ := ⟨rfl, trivial⟩
  have named : ∀ matchId ∈ left, (splitMatchId matchId).isSome := by
    intro matchId inside
    have own := (List.mem_filter.mp inside).2
    rw [Bool.and_eq_true, ownId, Option.any_eq_true] at own
    obtain ⟨⟨key, split, -⟩, -⟩ := own
    rw [split]
    rfl
  obtain ⟨marks, marked, fetched⟩ :=
    marks_run shortCodecs sharedGames sorted "EUW1" 1 ⟨"a", 0⟩ named State.empty
  obtain ⟨tables, finished⟩ := reschedule_ends (visit (.fetching sorted [])) false 9 10 marked
  have last : SmoothStep shortCodecs sharedGames ⟨marked, visit (.fetching sorted [])⟩
      (.finish 9 10) ⟨marked.committed tables, visit .done⟩ := ⟨⟨finished, rfl⟩, trivial⟩
  have run := Run.cons first (.cons second (.cons third (.cons fourth (.cons fifth
    (fetched.append (.cons last (.nil _)))))))
  refine ⟨_, _, run, (visit_sees_all_iff shortCodecs ?_ (by decide) run rfl).mpr ?_⟩
  · rw [length_sharedGames]
    decide
  · intro start _ _ seen
    obtain ⟨matchId, -, seen⟩ := seen
    rw [unseen_empty] at seen
    cases seen

/-! ## A game behind a seen one -/

/-- The newest hundred games came in with the visits of others. The next one is new. -/
def sharedMarks : List (UInt64 × Origin) :=
  (List.range 100).map fun age => (UInt64.ofNat (500 - age), .markSeen)

/-- No shared game is marked twice. -/
theorem sharedMarks_nodup : sharedMarks.Nodup := by
  apply List.Nodup.map_on _ List.nodup_range
  intro first inside second inside' same
  have numbers : (UInt64.ofNat (500 - first)).toNat = (UInt64.ofNat (500 - second)).toNat :=
    congrArg (fun mark => mark.1.toNat) same
  rw [List.mem_range] at inside inside'
  rw [UInt64.toNat_ofNat_of_lt' (by unfold UInt64.size; omega),
    UInt64.toNat_ofNat_of_lt' (by unfold UInt64.size; omega)] at numbers
  omega

def sharedRam : Ram :=
  { Ram.empty with seen := Table.empty.insert "EUW1" ⟨sharedMarks, sharedMarks_nodup⟩ }

/-- A visit stops at a full page that was seen through others, and misses the game behind it. -/
theorem visit_misses_games :
    ¬ ∀ (codecs : Codecs) (newer older : List String) (state : State)
    (platform : String) (pid : Nat)
      (task : FrontierTask) (events : List VisitEvent) (final : Visiting),
      (newer ++ older).length < matchlistMaxDepth →
      (∀ matchId ∈ older, seenId state.ram matchId = true) →
      task.lastVisitMs ≠ deepVisitMs →
      Run (SmoothStep codecs (newer ++ older)) ⟨state, ⟨platform, pid, task, .awaiting [] 0⟩⟩ events
        final →
      final.visit.phase = .done →
      ∀ matchId ∈ newer ++ older, ownId platform matchId = true →
        seenId final.store.ram matchId = true := by
  intro always
  let state : State := { State.empty with ram := sharedRam }
  let visit : Phase → Visit := fun phase => ⟨"EUW1", 1, ⟨"a", 0⟩, phase⟩
  let ids := sharedGames.take 100
  have seen : ids.all (seenId sharedRam) = true := by decide +kernel
  have ended : morePages false false sharedRam ids 100 100 = false := by decide +kernel
  have lost : seenId sharedRam "EUW1_400" = false := by decide +kernel
  have inside : "EUW1_400" ∈ sharedGames :=
    List.mem_map.mpr ⟨100, List.mem_range.mpr (by decide), by decide +kernel⟩
  have own : ownId "EUW1" "EUW1_400" = true := by decide +kernel
  have none_new : newIds "EUW1" sharedRam (ids.insertionSort (· ≤ ·)).dedup = [] := by
    rw [newIds, List.filter_eq_nil_iff]
    intro matchId there
    rw [List.mem_dedup, List.mem_insertionSort] at there
    simp [List.all_eq_true.mp seen matchId there]
  have first : SmoothStep shortCodecs (sharedGames ++ []) ⟨state, visit (.awaiting [] 0)⟩
      (.page ids) ⟨state, visit (.listing ids 100 100)⟩ := by
    have pageLen : ids.length = 100 := by
      rw [List.length_take, length_sharedGames]
      rfl
    refine ⟨?_, ?_⟩
    · simp only [VisitStep, visit, Visit.goTo, List.nil_append, pageLen]
      rfl
    · rintro _ start ⟨⟩
      rw [List.append_nil]
      rfl
  have second : SmoothStep shortCodecs (sharedGames ++ []) ⟨state, visit (.listing ids 100 100)⟩
      (.list none) ⟨state, visit (.listed (ids.insertionSort (· ≤ ·)).dedup)⟩ :=
    ⟨⟨ended, rfl, rfl⟩, trivial⟩
  have third : SmoothStep shortCodecs (sharedGames ++ [])
      ⟨state, visit (.listed (ids.insertionSort (· ≤ ·)).dedup)⟩ .select
      ⟨state, visit (.fetching (ids.insertionSort (· ≤ ·)).dedup [])⟩ := by
    refine ⟨?_, trivial⟩
    simp only [VisitStep, visit, Visit.goTo, state, none_new]
  obtain ⟨tables, finished⟩ := reschedule_ends
    (visit (.fetching (ids.insertionSort (· ≤ ·)).dedup [])) false 9 10 state
  have last : SmoothStep shortCodecs (sharedGames ++ [])
      ⟨state, visit (.fetching (ids.insertionSort (· ≤ ·)).dedup [])⟩ (.finish 9 10)
      ⟨state.committed tables, visit .done⟩ := ⟨⟨finished, rfl⟩, trivial⟩
  have all := always shortCodecs sharedGames [] state "EUW1" 1 ⟨"a", 0⟩ _ _
    (by rw [List.append_nil, length_sharedGames]; decide) nofun (by decide)
    (.cons first (.cons second (.cons third (.cons last (.nil _))))) rfl "EUW1_400"
    (by rw [List.append_nil]; exact inside) own
  have same : seenId (state.committed tables).ram "EUW1_400" = false := lost
  rw [same] at all
  cases all

end LolCrawler.Server
