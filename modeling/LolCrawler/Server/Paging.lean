import LolCrawler.Server.Visit

/-! # Paging through a list that grows

While a visit pages through a matchlist, new games are put in front of it, and every later page
starts nearer to the front than its offset says. Pages then overlap, and no game is left
out between them. Other tasks use the store in the meantime.
-/

namespace LolCrawler.Server

open Foundation Segment Store

/-- A visit that is under way, and the player's matchlist. -/
structure Paging where
  list : List String
  visiting : Visiting

inductive PagingEvent where
  /-- A step of the visit, after new games. -/
  | visit (fresh : List String) (event : VisitEvent)
  /-- Other tasks use the store. -/
  | others

/-- Pages are those of the list, and the paging ends at a page that is not full. -/
def Exhausts (list : List String) (visit : Visit) : VisitEvent → Prop
  | .page page => ∀ ids start, visit.phase = .awaiting ids start → page = pageAt list start
  | .list _ => ∀ ids pageLen start, visit.phase = .listing ids pageLen start → pageLen < pageSize
  | _ => True

variable (codecs : Codecs)

def PagingStep (now : Paging) (event : PagingEvent) (next : Paging) : Prop :=
  match event with
  | .visit fresh event =>
      next.list = fresh ++ now.list ∧
        (∃ stopped, VisitStep codecs stopped now.visiting event next.visiting) ∧
        Exhausts next.list now.visiting.visit event
  | .others => next.list = now.list ∧ next.visiting.visit = now.visiting.visit

/-- The ids reach as far into the first list as the offset says, less what is in front of it. -/
def Reaches (list : List String) (added : Nat) (ids : List String) (start : Nat) : Prop :=
  ∀ matchId ∈ list.take (start - added), matchId ∈ ids

/-- What the ids have of the first list. -/
def Gapless (list : List String) (added : Nat) : Phase → Prop
  | .awaiting ids start => Reaches list added ids start
  | .listing ids pageLen start =>
      Reaches list added ids start ∧ (pageLen < pageSize → ∀ matchId ∈ list, matchId ∈ ids)
  | .listed ids => (∀ matchId ∈ list, matchId ∈ ids) ∧ ids.Nodup
  | .fetching .. | .done => True

section Pages

variable {list ids : List String} {added more start : Nat}

/-- More in front of the list asks for less. -/
theorem Reaches.shift (reaches : Reaches list added ids start) (grows : added ≤ more) :
    Reaches list more ids start := by
  intro matchId inside
  exact reaches matchId (List.take_subset_take_left _ (by omega) inside)

theorem Gapless.shift {phase : Phase} (gapless : Gapless list added phase)
    (grows : added ≤ more) : Gapless list more phase := by
  cases phase with
  | awaiting ids start => exact Reaches.shift gapless grows
  | listing ids pageLen start => exact ⟨Reaches.shift gapless.1 grows, gapless.2⟩
  | listed ids => exact gapless
  | fetching ids left => trivial
  | done => trivial

/-- The next page starts no further than the ids reach. -/
theorem Reaches.page {front : List String} (reaches : Reaches list front.length ids start) :
    Reaches list front.length (ids ++ pageAt (front ++ list) start) (start + pageSize) := by
  intro matchId inside
  rw [List.mem_append]
  obtain ⟨index, there⟩ := List.mem_iff_getElem?.mp inside
  have below : index < start + pageSize - front.length := by
    have bound := (List.getElem?_eq_some_iff.mp there).1
    rw [List.length_take] at bound
    omega
  rw [List.getElem?_take_of_lt below] at there
  by_cases early : index < start - front.length
  · left
    refine reaches matchId (List.mem_of_getElem? (i := index) ?_)
    rw [List.getElem?_take_of_lt early]
    exact there
  · right
    refine List.mem_of_getElem? (i := front.length + index - start) ?_
    rw [pageAt, List.getElem?_take_of_lt (by omega), List.getElem?_drop,
      List.getElem?_append_right (by omega),
      show start + (front.length + index - start) - front.length = index by omega]
    exact there

/-- A page that is not full is the last one. -/
theorem Reaches.all {front : List String}
    (reaches : Reaches list front.length ids (start + pageSize))
    (short : (pageAt (front ++ list) start).length < pageSize) :
    ∀ matchId ∈ list, matchId ∈ ids := by
  rw [pageAt, List.length_take, List.length_drop, List.length_append] at short
  intro matchId inside
  refine reaches matchId ?_
  rw [List.take_of_length_le (by omega)]
  exact inside

end Pages

/-- What holds along a visit that began when this was the list. -/
def Unbroken (list : List String) (platform : String) (now : Paging) : Prop :=
  now.visiting.visit.platform = platform ∧
    ∃ front, now.list = front ++ list ∧ Gapless list front.length now.visiting.visit.phase

/-- Each step of a visit keeps its ids without a gap. -/
theorem VisitStep.gapless {list front : List String} {stopped : Bool} {now next : Visiting}
    {event : VisitEvent} (step : VisitStep codecs stopped now event next)
    (exhausts : Exhausts (front ++ list) now.visit event)
    (gapless : Gapless list front.length now.visit.phase) :
    next.visit.platform = now.visit.platform ∧
      Gapless list front.length next.visit.phase := by
  obtain ⟨store, visit⟩ := now
  obtain ⟨platform, pid, task, phase⟩ := visit
  simp only at exhausts gapless
  cases event with
  | page page =>
      cases phase with
      | awaiting ids start =>
          have same : page = pageAt (front ++ list) start := exhausts ids start rfl
          cases step
          rw [same]
          have further : Reaches list front.length (ids ++ pageAt (front ++ list) start)
              (start + pageSize) := Reaches.page gapless
          exact ⟨rfl, further, further.all⟩
      | _ => exact step.elim
  | pageFailed nowMs =>
      cases phase with
      | awaiting ids start => rw [step.2]; exact ⟨rfl, trivial⟩
      | _ => exact step.elim
  | nextPage =>
      cases phase with
      | listing ids pageLen start =>
          rw [step.2]
          exact ⟨rfl, gapless.1⟩
      | _ => exact step.elim
  | list rank =>
      cases phase with
      | listing ids pageLen start =>
          have all := gapless.2 (exhausts ids pageLen start rfl)
          rw [step.2.2]
          refine ⟨rfl, fun matchId inside => ?_, List.nodup_dedup _⟩
          rw [List.mem_dedup, List.mem_insertionSort]
          exact all matchId inside
      | _ => exact step.elim
  | select =>
      cases phase with
      | listed ids => rw [show next = _ from step]; exact ⟨rfl, trivial⟩
      | _ => exact step.elim
  | skip matchId =>
      cases phase with
      | fetching ids left => rw [step.2.2]; exact ⟨rfl, trivial⟩
      | _ => exact step.elim
  | fetchFailed matchId =>
      cases phase with
      | fetching ids left => rw [step.2]; exact ⟨rfl, trivial⟩
      | _ => exact step.elim
  | mark matchId =>
      cases phase with
      | fetching ids left =>
          obtain ⟨-, _, _, -, -, moved⟩ := step
          rw [moved]
          exact ⟨rfl, trivial⟩
      | _ => exact step.elim
  | store matchId given clock failed =>
      cases phase with
      | fetching ids left =>
          obtain ⟨-, -, -, -, -, -, moved⟩ := step
          rw [moved]
          exact ⟨rfl, trivial⟩
      | _ => exact step.elim
  | finish nowMs dueMs =>
      cases phase with
      | fetching ids left =>
          cases left with
          | nil => rw [step.2]; exact ⟨rfl, trivial⟩
          | cons => exact step.elim
      | _ => exact step.elim

theorem Unbroken.step {list : List String} {platform : String} {now next : Paging}
    {event : PagingEvent} (unbroken : Unbroken list platform now)
    (step : PagingStep codecs now event next) : Unbroken list platform next := by
  obtain ⟨own, front, same, gapless⟩ := unbroken
  cases event with
  | others =>
      obtain ⟨kept, visit⟩ := step
      exact ⟨visit ▸ own, front, kept.trans same, visit ▸ gapless⟩
  | visit fresh event =>
      obtain ⟨grown, ⟨stopped, step⟩, exhausts⟩ := step
      have longer : next.list = (fresh ++ front) ++ list := by
        rw [grown, same, List.append_assoc]
      have shifted : Gapless list (fresh ++ front).length now.visiting.visit.phase :=
        gapless.shift (by rw [List.length_append]; omega)
      obtain ⟨platform, further⟩ := VisitStep.gapless codecs step (longer ▸ exhausts) shifted
      exact ⟨platform.trans own, fresh ++ front, longer, further⟩

/-- **Paging.** When the paging ends at a page that is not full, it has every id that was on the
list when it began, and each of them that is unseen and of the platform is to be fetched
once. -/
theorem paging_leaves_no_gap {list : List String} {state : State} {platform : String} {pid : Nat}
    {task : FrontierTask} {events : List PagingEvent} {now : Paging}
    (run : Run (PagingStep codecs)
      ⟨list, ⟨state, ⟨platform, pid, task, .awaiting [] 0⟩⟩⟩ events now) :
    (∀ ids pageLen start, now.visiting.visit.phase = .listing ids pageLen start →
      pageLen < pageSize → ∀ matchId ∈ list, matchId ∈ ids) ∧
    ∀ fresh next, PagingStep codecs now (.visit fresh .select) next →
      ∃ ids left, next.visiting.visit.phase = .fetching ids left ∧
        (∀ matchId ∈ list, matchId ∈ ids) ∧
        ∀ matchId ∈ list, ownId platform matchId = true →
          seenId now.visiting.store.ram matchId = false → left.count matchId = 1 := by
  have began : Unbroken list platform
      ⟨list, ⟨state, ⟨platform, pid, task, .awaiting [] 0⟩⟩⟩ := by
    refine ⟨rfl, [], rfl, fun matchId inside => ?_⟩
    rw [Nat.zero_sub, List.take_zero] at inside
    exact inside
  have unbroken := run.invariant (Unbroken list platform)
    (fun _ _ _ unbroken step => unbroken.step codecs step) began
  obtain ⟨own, front, -, gapless⟩ := unbroken
  refine ⟨fun ids pageLen start phase short => ?_, fun fresh next step => ?_⟩
  · rw [phase] at gapless
    exact gapless.2 short
  · obtain ⟨-, ⟨stopped, step⟩, -⟩ := step
    obtain ⟨now, visiting⟩ := now
    obtain ⟨store, visit⟩ := visiting
    obtain ⟨visitPlatform, pid, task, phase⟩ := visit
    simp only at own gapless
    subst own
    cases phase with
    | listed ids =>
        obtain ⟨all, once⟩ := gapless
        refine ⟨ids, newIds visitPlatform store.ram ids, ?_, all,
          fun matchId inside mine unseen => ?_⟩
        · rw [show next.visiting = _ from step]
          rfl
        · refine List.count_eq_one_of_mem (once.filter _) (List.mem_filter.mpr ⟨all _ inside, ?_⟩)
          rw [mine, unseen]
          rfl
    | _ => exact step.elim

/-- After a full page two games are played, and the second page has the last two of the first
again. -/
theorem paging_leaves_no_gap_grown :
    ∃ events now next, Run (PagingStep shortCodecs)
        ⟨sharedGames, ⟨State.empty, ⟨"EUW1", 1, ⟨"a", 1⟩, .awaiting [] 0⟩⟩⟩ events now ∧
      PagingStep shortCodecs now (.visit ["EUW1_503"] .select) next ∧
      ∃ ids left, next.visiting.visit.phase = .fetching ids left ∧
        ∀ matchId ∈ sharedGames, ownId "EUW1" matchId = true → left.count matchId = 1 := by
  let visit : Phase → Visit := fun phase => ⟨"EUW1", 1, ⟨"a", 1⟩, phase⟩
  let grown := ["EUW1_502", "EUW1_501"] ++ sharedGames
  let ids := pageAt sharedGames 0 ++ pageAt grown 100
  let sorted := (ids.insertionSort (· ≤ ·)).dedup
  have full : (pageAt sharedGames 0).length = 100 := length_firstPage
  have short : (pageAt grown 100).length = 3 := by
    rw [pageAt, List.length_take, List.length_drop, List.length_append, length_sharedGames]
    rfl
  have first : PagingStep shortCodecs ⟨sharedGames, ⟨State.empty, visit (.awaiting [] 0)⟩⟩
      (.visit [] (.page (pageAt sharedGames 0)))
      ⟨sharedGames, ⟨State.empty, visit (.listing (pageAt sharedGames 0) 100 100)⟩⟩ := by
    refine ⟨rfl, ⟨false, ?_⟩, fun before start phase => ?_⟩
    · simp only [VisitStep, visit, Visit.goTo, List.nil_append, full, pageSize, Nat.zero_add]
    · cases phase
      rfl
  have second : PagingStep shortCodecs
      ⟨sharedGames, ⟨State.empty, visit (.listing (pageAt sharedGames 0) 100 100)⟩⟩
      (.visit ["EUW1_502", "EUW1_501"] .nextPage)
      ⟨grown, ⟨State.empty, visit (.awaiting (pageAt sharedGames 0) 100)⟩⟩ :=
    ⟨rfl, ⟨false, unseen_goes, rfl⟩, trivial⟩
  have third : PagingStep shortCodecs
      ⟨grown, ⟨State.empty, visit (.awaiting (pageAt sharedGames 0) 100)⟩⟩
      (.visit [] (.page (pageAt grown 100)))
      ⟨grown, ⟨State.empty, visit (.listing ids 3 200)⟩⟩ := by
    refine ⟨rfl, ⟨false, ?_⟩, fun before start phase => ?_⟩
    · simp only [VisitStep, visit, Visit.goTo, short, pageSize, ids]
    · cases phase
      rfl
  have fourth : PagingStep shortCodecs ⟨grown, ⟨State.empty, visit (.listing ids 3 200)⟩⟩
      (.visit [] (.list none)) ⟨grown, ⟨State.empty, visit (.listed sorted)⟩⟩ := by
    refine ⟨rfl, ⟨false, rfl, rfl, rfl⟩, fun before pageLen start phase => ?_⟩
    cases phase
    decide
  have selected : PagingStep shortCodecs ⟨grown, ⟨State.empty, visit (.listed sorted)⟩⟩
      (.visit ["EUW1_503"] .select)
      ⟨"EUW1_503" :: grown, ⟨State.empty, visit (.fetching sorted
        (newIds "EUW1" State.empty.ram sorted))⟩⟩ := ⟨rfl, ⟨false, rfl⟩, trivial⟩
  have run := Run.cons first (.cons second (.cons third (.cons fourth (.nil _))))
  obtain ⟨ids, left, phase, -, once⟩ := (paging_leaves_no_gap shortCodecs run).2 _ _ selected
  exact ⟨_, _, _, run, selected, ids, left, phase, fun matchId inside own =>
    once matchId inside own (unseen_empty matchId)⟩

end LolCrawler.Server
