import LolCrawler.Store.Cohort
import LolCrawler.Store.Seen
import LolCrawler.Store.Tasks

/-! # What the calls of a running store keep

A store is sound when its frontier is in order, deep tasks belong to cohort members, the
memory mirrors the cohort, and the bitmaps in the tables are the durable ones and agree
with the seen games in memory unless these have changed since (`State.Sound`). Calls
keep a store sound, and no member and no seen game is lost (`Forward`). A call that a
crash cuts short leaves durable tables that are in order and have lost no game
(`Fallback`).
-/

namespace LolCrawler.Store

open Foundation Segment Prog

/-- The game is in the bitmap of its platform. -/
def seenIn (bitmaps : Table String Bitmap) (platform : String) (gameId : UInt64) : Bool :=
  (gameId, .markSeen) ∈ (bitmaps.get platform).getD ∅ ||
    (gameId, .storeMatch) ∈ (bitmaps.get platform).getD ∅

/-- A game is seen if its bitmap says so. -/
theorem isSeen_eq (ram : Ram) (platform : String) (gameId : UInt64) :
    ram.isSeen platform gameId = seenIn ram.seen platform gameId := rfl

/-- The frontier is in order, and who waits for a deep visit is in the cohort. -/
structure Tables.Sound (tables : Tables) : Prop where
  orderly : tables.Orderly
  members : ∀ pid task, tables.Queued pid task → task.lastVisitMs = deepVisitMs →
    (tables.cohort.get pid).isSome

/-- The memory and the tables have the same cohort. -/
def SameCohort (ram : Ram) (tables : Tables) : Prop :=
  ∀ pid, pid ∈ ram.cohort ↔ (tables.cohort.get pid).isSome

structure State.Sound (platforms : List String) (state : State) : Prop where
  tables : state.tables.Sound
  durable : state.durable.Sound
  bitmaps : state.tables.bitmaps = state.durable.bitmaps
  cohort : SameCohort state.ram state.tables
  /-- The memory has the games of the enabled platforms that the tables have. -/
  saved : ∀ platform ∈ platforms, ∀ gameId, seenIn state.durable.bitmaps platform gameId = true →
    state.ram.isSeen platform gameId = true
  clean : state.ram.dirtyBitmaps = false → ∀ platform gameId,
    state.ram.isSeen platform gameId = true → seenIn state.durable.bitmaps platform gameId = true

/-- A step of a sound store. -/
structure Forward (platforms : List String) (before after : State) : Prop where
  sound : after.Sound platforms
  members : ∀ pid ∈ before.ram.cohort, pid ∈ after.ram.cohort
  seen : ∀ platform gameId, before.ram.isSeen platform gameId = true →
    after.ram.isSeen platform gameId = true
  saved : ∀ platform ∈ platforms, ∀ gameId,
    seenIn before.durable.bitmaps platform gameId = true →
      seenIn after.durable.bitmaps platform gameId = true

/-- What a crash leaves of a sound store. -/
structure Fallback (platforms : List String) (before after : State) : Prop where
  durable : after.durable.Sound
  saved : ∀ platform ∈ platforms, ∀ gameId,
    seenIn before.durable.bitmaps platform gameId = true →
      seenIn after.durable.bitmaps platform gameId = true

/-- The frontier and the bitmaps are the same, and no member is lost. -/
structure Carries (before after : Tables) : Prop where
  frontier : after.frontier = before.frontier
  frontierIdx : after.frontierIdx = before.frontierIdx
  bitmaps : after.bitmaps = before.bitmaps
  cohort : ∀ pid, (before.cohort.get pid).isSome → (after.cohort.get pid).isSome

section Carries

variable {platforms : List String} {before after : State} {first second : Tables}

/-- What stays is carried. -/
theorem Carries.refl (tables : Tables) : Carries tables tables :=
  ⟨rfl, rfl, rfl, fun _ here => here⟩

/-- Order is about the frontier and its index alone. -/
theorem Tables.Orderly.congr (orderly : first.Orderly) (frontier : second.frontier = first.frontier)
    (frontierIdx : second.frontierIdx = first.frontierIdx) : second.Orderly := by
  obtain ⟨⟨indexed, waiting, buckets⟩, priority⟩ := orderly
  refine ⟨⟨?_, ?_, ?_⟩, ?_⟩
  · rw [frontier, frontierIdx]
    exact indexed
  · rw [frontier, frontierIdx]
    exact waiting
  · rw [frontierIdx]
    exact buckets
  · rw [frontierIdx]
    exact priority

/-- Tables that are carried stay sound. -/
theorem Tables.Sound.carry (sound : first.Sound) (carries : Carries first second) :
    second.Sound where
  orderly := sound.orderly.congr carries.frontier carries.frontierIdx
  members pid task here deep :=
    carries.cohort pid (sound.members pid task ((queued_congr carries.frontier).mp here) deep)

/-- A step that changes neither the frontier nor what is seen. -/
theorem State.Sound.carry (sound : before.Sound platforms)
    (tables : Carries before.tables after.tables)
    (durable : after.durable = before.durable ∨ Carries before.tables after.durable)
    (seen : after.ram.seen = before.ram.seen)
    (dirty : after.ram.dirtyBitmaps = before.ram.dirtyBitmaps)
    (cohort : SameCohort after.ram after.tables)
    (members : ∀ pid ∈ before.ram.cohort, pid ∈ after.ram.cohort) :
    Forward platforms before after := by
  have kept : after.durable.bitmaps = before.durable.bitmaps := by
    rcases durable with same | carries
    · rw [same]
    · rw [carries.bitmaps, sound.bitmaps]
  have same : ∀ platform gameId,
      after.ram.isSeen platform gameId = before.ram.isSeen platform gameId :=
    fun _ _ => isSeen_congr seen
  refine ⟨⟨sound.tables.carry tables, ?_, by rw [tables.bitmaps, kept, sound.bitmaps], cohort,
    fun platform enabled gameId here => ?_, fun tidy platform gameId here => ?_⟩, members,
    fun platform gameId here => ?_, fun platform _ gameId here => ?_⟩
  · rcases durable with same | carries
    · rw [same]
      exact sound.durable
    · exact sound.tables.carry carries
  · rw [same]
    rw [kept] at here
    exact sound.saved platform enabled gameId here
  · rw [same] at here
    rw [dirty] at tidy
    rw [kept]
    exact sound.clean tidy platform gameId here
  · rw [same]
    exact here
  · rw [kept]
    exact here

/-- Two steps forward. -/
theorem Forward.trans {middle : State} (one : Forward platforms before middle)
    (two : Forward platforms middle after) : Forward platforms before after :=
  ⟨two.sound, fun pid here => two.members pid (one.members pid here),
    fun platform gameId here => two.seen platform gameId (one.seen platform gameId here),
    fun platform enabled gameId here =>
      two.saved platform enabled gameId (one.saved platform enabled gameId here)⟩

/-- A sound store that stays is forward. -/
theorem Forward.refl (sound : before.Sound platforms) : Forward platforms before before :=
  ⟨sound, fun _ here => here, fun _ _ here => here, fun _ _ _ here => here⟩

/-- A crash falls back to the same durable tables. -/
theorem Fallback.of_same (sound : before.Sound platforms)
    (durable : after.durable = before.durable) :
    Fallback platforms before after :=
  ⟨durable ▸ sound.durable, fun _ _ _ here => durable.symm ▸ here⟩

end Carries

/-! ## Calls on the frontier and on the memory -/

section Memory

variable {platforms : List String} {before after : State}

/-- A step that changes the frontier only. -/
theorem State.Sound.queue (sound : before.Sound platforms) (only : OnlyFrontier before after)
    (orderly : after.tables.Orderly)
    (members : ∀ pid task, after.tables.Queued pid task → task.lastVisitMs = deepVisitMs →
      before.tables.Queued pid task ∨ pid ∈ before.ram.cohort) :
    Forward platforms before after := by
  obtain ⟨ram, durable, _, _, tables⟩ := only
  refine ⟨⟨⟨orderly, fun pid task here deep => ?_⟩, ?_, ?_, ?_, ?_, ?_⟩, ?_, ?_, ?_⟩
  · rw [tables]
    rcases members pid task here deep with waited | member
    · exact sound.tables.members pid task waited deep
    · exact (sound.cohort pid).mp member
  · rw [durable]
    exact sound.durable
  · rw [durable, tables]
    exact sound.bitmaps
  · rw [ram, tables]
    exact sound.cohort
  · rw [durable, ram]
    exact sound.saved
  · rw [durable, ram]
    exact sound.clean
  · rw [ram]
    exact fun _ here => here
  · rw [ram]
    exact fun _ _ here => here
  · rw [durable]
    exact fun _ _ _ here => here

/-- A push of members keeps the store sound, and moves it forward. -/
theorem State.Sound.push (sound : before.Sound platforms) {allowed : Nat → FrontierTask → Prop}
    (only : OnlyFrontier before after) (orderly : after.tables.Orderly)
    (pushes : Pushes allowed before.tables after.tables)
    (members : ∀ pid task, allowed pid task → task.lastVisitMs = deepVisitMs →
      pid ∈ before.ram.cohort) : Forward platforms before after :=
  sound.queue only orderly fun pid task here deep =>
    (pushes.added pid task here).imp_right fun new => members pid task new.2 deep

/-- A mark of a game goes forward. -/
theorem State.Sound.mark (sound : before.Sound platforms) (origin : Origin) (platform : String)
    (gameId : UInt64) :
    Forward platforms before { before with ram := before.ram.mark origin platform gameId } := by
  have seen : ∀ other game, before.ram.isSeen other game = true →
      (before.ram.mark origin platform gameId).isSeen other game = true := fun _ _ here =>
    isSeen_mark.mpr (.inl here)
  exact ⟨⟨sound.tables, sound.durable, sound.bitmaps, sound.cohort,
    fun other enabled game here => seen other game (sound.saved other enabled game here), nofun⟩,
    fun _ here => here, seen, fun _ _ _ here => here⟩

/-- Buffering ranks goes forward. -/
theorem State.Sound.rank (sound : before.Sound platforms)
    (pendingRanks : List (Nat × Nat × RankSnap)) :
    Forward platforms before
      { before with ram := { before.ram with pendingRanks := pendingRanks } } :=
  sound.carry (.refl _) (.inl rfl) rfl rfl sound.cohort fun _ here => here

/-- A durable transaction that changes other tables. -/
theorem State.Sound.persist (sound : before.Sound platforms) :
    Forward platforms before { before with durable := before.tables } :=
  sound.carry (.refl _) (.inr (.refl _)) rfl rfl sound.cohort fun _ here => here

/-- Checkpoints and changes of the segments go forward. -/
theorem State.Sound.archiving (sound : before.Sound platforms)
    (archiving : Archiving before after) : Forward platforms before after := by
  obtain ⟨⟨_, _, ram⟩, ⟨_, _, tables⟩, durable⟩ := archiving
  refine sound.carry ?_ (durable.imp_right ?_) (by rw [ram]) (by rw [ram]) ?_ ?_
  · rw [tables]
    exact ⟨rfl, rfl, rfl, fun _ here => here⟩
  · rintro ⟨_, _, same⟩
    rw [same]
    exact ⟨rfl, rfl, rfl, fun _ here => here⟩
  · rw [ram, tables]
    exact sound.cohort
  · rw [ram]
    exact fun _ here => here

end Memory

/-! ## The cohort -/

section Members

variable {tsMs : Nat} {growthPaused : Bool}

/-- Sightings take no member away. -/
theorem sightAll_members (pids : List Nat) (found : Ram × Tables) :
    ∀ other ∈ found.1.cohort, other ∈ (sightAll tsMs growthPaused pids found).1.cohort := by
  intro other here
  exact List.foldlRecOn pids _ (motive := fun found : Ram × Tables => other ∈ found.1.cohort) here
    fun found held pid _ => sight_members tsMs growthPaused found pid other held

/-- Sightings keep the cohort of the memory and the table the same. -/
theorem sightAll_cohort (pids : List Nat) (found : Ram × Tables)
    (cohort : SameCohort found.1 found.2) :
    SameCohort (sightAll tsMs growthPaused pids found).1
      (sightAll tsMs growthPaused pids found).2 := by
  refine List.foldlRecOn pids _ (motive := fun found : Ram × Tables => SameCohort found.1 found.2)
    cohort fun found held pid _ => ?_
  unfold sight
  split
  · exact held
  · simp only
    split
    · intro other
      rw [Finset.mem_insert, Table.get_insert, held]
      split
      · next same => simp [same]
      · next different => simp [different]
    · exact held

/-- Members are not adopted. -/
theorem adoptedBy_outside {pid : Nat} {puuid : String} (players : List (Nat × String)) :
    ∀ found : Ram × Tables, (pid, puuid) ∈ adoptedBy tsMs growthPaused players found →
      pid ∉ found.1.cohort := by
  induction players with
  | nil => exact fun _ inside => nomatch inside
  | cons player players ih =>
      obtain ⟨first, name⟩ := player
      intro found inside
      rcases List.mem_append.mp inside with here | later
      · split at here
        · next adopts =>
            obtain ⟨rfl, -⟩ := Prod.mk.inj (List.mem_singleton.mp here)
            simp only [Ram.adopts, Bool.and_eq_true, decide_eq_true_eq] at adopts
            exact adopts.1.1
        · cases here
      · exact fun member => ih _ later (sight_members tsMs growthPaused found first pid member)

namespace Match

variable (given : Match)

/-- The effects of a match keep the two cohorts the same, and take no member away. -/
theorem effects_cohort (alreadyStored : Bool) (pids : List Nat) {state : State}
    (cohort : SameCohort state.ram state.working) :
    SameCohort (given.effects alreadyStored pids state).ram
        (given.effects alreadyStored pids state).working ∧
      ∀ pid ∈ state.ram.cohort, pid ∈ (given.effects alreadyStored pids state).ram.cohort := by
  unfold effects
  split
  · exact ⟨cohort, fun _ here => here⟩
  · split
    · obtain ⟨same, -, same', -⟩ := withMatch_rest (given.sighted pids state)
        given.record.platform given.record.gameId given.tsMs pids
      refine ⟨fun pid => ?_, fun pid here => ?_⟩
      · rw [same, same']
        exact sightAll_cohort pids (state.ram, state.working) cohort pid
      · rw [same]
        exact sightAll_members pids (state.ram, state.working) pid here
    · exact ⟨cohort, fun _ here => here⟩

/-- The ids of a match are assigned without a change of the cohort. -/
theorem entered_cohort (state : State) : (given.entered state).ram.cohort = state.ram.cohort := by
  show (state.ram.assign given.puuids).1.cohort = _
  rw [assign_rest]

/-- Who is adopted was outside. -/
theorem adopted_outside {state : State} {pid : Nat} {puuid : String}
    (inside : (pid, puuid) ∈ given.adopted state) : pid ∉ state.ram.cohort := by
  unfold adopted at inside
  split at inside
  · rw [← given.entered_cohort]
    exact adoptedBy_outside _ _ inside
  · cases inside

end Match

/-- The transaction of a match goes forward. -/
theorem State.Sound.committed {platforms : List String} {state : State}
    (sound : state.Sound platforms) (given : Match) :
    Forward platforms state (given.committed state) := by
  have entered : SameCohort (given.entered state).ram (given.entered state).working := by
    intro pid
    rw [given.entered_cohort]
    exact sound.cohort pid
  obtain ⟨cohort, members⟩ := given.effects_cohort
    (state.tables.progress.get given.key).isSome (given.pids state.ram) entered
  rw [given.entered_cohort] at members
  have apart := given.committed_apart state
  have cohort' : SameCohort (given.committed state).ram (given.committed state).tables := cohort
  refine sound.carry ⟨apart.frontier, apart.frontierIdx, apart.bitmaps, fun pid here => ?_⟩
    (.inl (given.inTxn_outside state).durable) apart.seen apart.dirtyBitmaps cohort' members
  exact (cohort' pid).mp (members pid ((sound.cohort pid).mpr here))

end Members

/-! ## The calls -/

section Calls

variable {platforms : List String} {state next : State}

/-- The bitmaps are added, and the others stay. -/
theorem get_addBitmaps (platform : String) (seen : List (String × Bitmap))
    (distinct : (seen.map Prod.fst).Nodup) (bitmaps : Table String Bitmap) :
    (∀ bitmap, (platform, bitmap) ∈ seen →
        (addBitmaps bitmaps seen).get platform = some bitmap) ∧
      (platform ∉ seen.map Prod.fst →
        (addBitmaps bitmaps seen).get platform = bitmaps.get platform) := by
  induction seen generalizing bitmaps with
  | nil => exact ⟨nofun, fun _ => rfl⟩
  | cons entry seen ih =>
      rw [List.map_cons, List.nodup_cons] at distinct
      obtain ⟨here, absent⟩ := ih distinct.2 (bitmaps.insert entry.1 entry.2)
      refine ⟨fun bitmap inside => ?_, fun outside => ?_⟩
      · rcases List.mem_cons.mp inside with same | later
        · have outside : platform ∉ seen.map Prod.fst := by
            rw [show platform = entry.1 from congrArg Prod.fst same]
            exact distinct.1
          refine (absent outside).trans ?_
          rw [← same]
          exact Table.get_insert_self _ _ _
        · exact here bitmap later
      · rw [List.map_cons, List.mem_cons, not_or] at outside
        exact (absent outside.2).trans (Table.get_insert_of_ne _ _ outside.1)

/-- The bitmaps that are written are those in memory. -/
theorem withBitmaps_seen (state : State) (platform : String) :
    state.withBitmaps.durable.bitmaps.get platform =
      (state.ram.seen.get platform).or (state.tables.bitmaps.get platform) := by
  obtain ⟨here, absent⟩ := get_addBitmaps platform state.ram.seen.entries state.ram.seen.distinct
    state.tables.bitmaps
  cases found : state.ram.seen.get platform with
  | some bitmap => exact here bitmap (Table.get_eq_some.mp found)
  | none =>
      apply absent
      intro inside
      obtain ⟨entry, there, rfl⟩ := List.mem_map.mp inside
      have value : state.ram.seen.get entry.1 = some entry.2 := Table.get_eq_some.mpr there
      rw [found] at value
      cases value

/-- What is seen is written. -/
theorem withBitmaps_saved {platform : String} {gameId : UInt64}
    (seen : state.ram.isSeen platform gameId = true) :
    seenIn state.withBitmaps.durable.bitmaps platform gameId = true := by
  rw [isSeen_eq] at seen
  unfold seenIn at seen ⊢
  rw [withBitmaps_seen]
  cases found : state.ram.seen.get platform with
  | some bitmap =>
      rw [found] at seen
      exact seen
  | none =>
      rw [found] at seen
      simp at seen

/-- Writing the bitmaps moves a sound store forward. -/
theorem State.Sound.withBitmaps (sound : state.Sound platforms) :
    Forward platforms state state.withBitmaps := by
  have tables : state.withBitmaps.tables.Sound :=
    ⟨sound.tables.orderly.congr rfl rfl, fun pid task here deep =>
      sound.tables.members pid task ((queued_congr rfl).mp here) deep⟩
  refine ⟨⟨tables, tables, rfl, sound.cohort, fun platform enabled gameId here => ?_,
    fun _ platform gameId here => withBitmaps_saved here⟩,
    fun _ here => here, fun _ _ here => here,
    fun platform enabled gameId here =>
      withBitmaps_saved (sound.saved platform enabled gameId here)⟩
  unfold seenIn at here
  rw [withBitmaps_seen] at here
  cases found : state.ram.seen.get platform with
  | some bitmap =>
      rw [found] at here
      show seenIn state.ram.seen platform gameId = true
      rw [seenIn, found]
      exact here
  | none =>
      rw [found, Option.none_or, sound.bitmaps] at here
      exact sound.saved platform enabled gameId here

variable (codecs : Codecs)

/-- **A commit.** What is seen is durable after it, and so are the tables. -/
theorem commit_forward {nowMs : Nat} {order : List String} (sound : state.Sound platforms)
    (ends : Ends (commit codecs nowMs order) state () next) :
    Forward platforms state next ∧ next.tables.frontier = state.tables.frontier ∧
      ∀ platform gameId, next.ram.isSeen platform gameId = true →
        seenIn next.durable.bitmaps platform gameId = true := by
  have meets : Meets (commit codecs nowMs order) state
      (fun _ after => Forward platforms state after ∧
        after.tables.frontier = state.tables.frontier ∧
        ∀ platform gameId, after.ram.isSeen platform gameId = true →
          seenIn after.durable.bitmaps platform gameId = true)
      fun _ _ => True := by
    rw [commit_eq]
    refine Meets.bind ((checkpointFlush_archiving codecs nowMs order state).mono
      (fun _ _ here => here) fun _ _ _ => trivial) fun _ between archiving => ?_
    have flushed := sound.archiving archiving
    obtain ⟨_, _, tables⟩ := archiving.tables
    refine (commitBitmaps_meets between).mono (fun _ after same => ?_) fun _ _ _ => trivial
    rw [same]
    split
    · refine ⟨flushed.trans flushed.sound.withBitmaps, ?_,
        fun platform gameId here => withBitmaps_saved here⟩
      show between.tables.frontier = _
      rw [tables]
    · next tidy =>
        refine ⟨flushed, by rw [tables], flushed.sound.clean ?_⟩
        rw [← Bool.not_eq_true]
        exact tidy
  exact ends.meets meets

/-- A commit makes all tables durable. -/
theorem commit_durable {nowMs : Nat} {order : List String}
    (ends : Ends (commit codecs nowMs order) state () next) :
    next.durable.frontier = state.tables.frontier ∧
      next.durable.frontierIdx = state.tables.frontierIdx := by
  have meets : Meets (commit codecs nowMs order) state
      (fun _ after => after.durable.frontier = state.tables.frontier ∧
        after.durable.frontierIdx = state.tables.frontierIdx)
      fun _ _ => True := by
    unfold commit
    refine Meets.bind ((durableCheckpoint_meets nowMs state).mono (fun _ _ here => here)
      fun _ _ _ => trivial) fun _ between here => ?_
    subst here
    refine Meets.bind ((flushWriters_archiving codecs order (state.checkpointed nowMs)).mono
      (fun _ _ here => here) fun _ _ _ => trivial) fun _ flushed archiving => ?_
    have frontier : flushed.tables.frontier = state.tables.frontier ∧
        flushed.tables.frontierIdx = state.tables.frontierIdx := by
      obtain ⟨_, _, tables⟩ := archiving.tables
      rw [tables]
      exact ⟨rfl, rfl⟩
    have durable : flushed.durable.frontier = state.tables.frontier ∧
        flushed.durable.frontierIdx = state.tables.frontierIdx := by
      rcases archiving.durable with same | ⟨_, _, same⟩
      · rw [same]
        exact ⟨rfl, rfl⟩
      · rw [same]
        exact ⟨rfl, rfl⟩
    refine (commitBitmaps_meets flushed).mono (fun _ after same => ?_) fun _ _ _ => trivial
    rw [same]
    split
    · exact frontier
    · exact durable
  exact ends.meets meets

/-- **A stored match** goes forward, leaves the queues alone and adopts only outsiders. -/
theorem storeMatch_forward {given : Match} {clock : Clock} {adopted : List (Nat × String)}
    (sound : state.Sound platforms)
    (ends : Ends (storeMatch codecs given.record given.puuids given.tsMs given.growthPaused clock)
      state adopted next) :
    Forward platforms state next ∧ next.tables.frontier = state.tables.frontier ∧
      ∀ player ∈ adopted, player.1 ∉ state.ram.cohort := by
  obtain ⟨same, -⟩ := storeMatch_ends codecs ends
  obtain ⟨between, archiving, rfl⟩ := storeMatch_leaves codecs ends
  have committed := sound.committed given
  have archived := committed.sound.archiving archiving
  refine ⟨committed.trans (archived.trans (archived.sound.mark _ _ _)), ?_, fun player inside => ?_⟩
  · obtain ⟨_, _, tables⟩ := archiving.tables
    show between.tables.frontier = _
    rw [tables]
    exact (given.committed_apart state).frontier
  · rw [same] at inside
    exact given.adopted_outside inside

/-- New members leave the seen games alone, and take no member away. -/
theorem enrol_members (new : List Nat) (ram : Ram) :
    (new.foldl Ram.enrol ram).seen = ram.seen ∧
      (new.foldl Ram.enrol ram).dirtyBitmaps = ram.dirtyBitmaps ∧
      ∀ pid ∈ ram.cohort, pid ∈ (new.foldl Ram.enrol ram).cohort := by
  induction new generalizing ram with
  | nil => exact ⟨rfl, rfl, fun _ here => here⟩
  | cons first new ih =>
      obtain ⟨seen, dirty, members⟩ := ih (ram.enrol first)
      exact ⟨seen, dirty, fun pid here => members pid (Finset.mem_insert_of_mem here)⟩

/-- New members are written in the cohort and in the outsiders alone. -/
theorem enrolAll_rest (nowMs source : Nat) (new : List Nat) (tables : Tables) :
    ∃ cohort outsider, enrolAll nowMs source new tables =
      { tables with cohort := cohort, outsider := outsider } := by
  induction new generalizing tables with
  | nil => exact ⟨_, _, rfl⟩
  | cons first new ih =>
      obtain ⟨cohort, outsider, rest⟩ := ih
        { tables with
          cohort := tables.cohort.insert first (nowMs, source)
          outsider := tables.outsider.remove first }
      exact ⟨cohort, outsider, rest⟩

/-- New members keep the two cohorts the same. -/
theorem enrolled_cohort {ram : Ram} {tables : Tables} (cohort : SameCohort ram tables)
    (nowMs source : Nat) (new : List Nat) :
    SameCohort (new.foldl Ram.enrol ram) (enrolAll nowMs source new tables) := by
  induction new generalizing ram tables with
  | nil => exact cohort
  | cons first new ih =>
      apply ih
      intro other
      rw [Ram.enrol, Finset.mem_insert, Table.get_insert, cohort]
      split
      · next same => simp [same]
      · next different => simp [different]

/-- An enrolment moves the store forward, and leaves the frontier. -/
theorem cohortAddBatch_forward {players new : List Nat} {source nowMs : Nat}
    (sound : state.Sound platforms)
    (ends : Ends (cohortAddBatch players source nowMs) state new next) :
    Forward platforms state next ∧ next.tables.frontier = state.tables.frontier := by
  obtain ⟨_, batch⟩ := cohortAddBatch_ends players source nowMs state
  obtain ⟨-, rfl⟩ := ends.unique batch
  obtain ⟨seen, dirty, members⟩ := enrol_members
    (players.filter fun pid => pid ∉ state.ram.cohort) state.ram
  obtain ⟨_, _, tables⟩ := enrolAll_rest nowMs source
    (players.filter fun pid => pid ∉ state.ram.cohort) state.tables
  have cohort := enrolled_cohort sound.cohort nowMs source
    (players.filter fun pid => pid ∉ state.ram.cohort)
  refine ⟨sound.carry ⟨?_, ?_, ?_, fun pid here => ?_⟩ (.inl rfl) seen dirty cohort members, ?_⟩
  · simp only [tables]
  · simp only [tables]
  · simp only [tables]
  · exact (cohort pid).mp (members pid ((sound.cohort pid).mpr here))
  · simp only [tables]

/-- An assignment moves the store forward, and leaves the frontier. -/
theorem assignPlayerIds_forward {puuids : List String} {ids : List Nat}
    (sound : state.Sound platforms) (ends : Ends (assignPlayerIds puuids) state ids next) :
    Forward platforms state next ∧ next.tables.frontier = state.tables.frontier ∧
      next.ram.cohort = state.ram.cohort := by
  have assigned := assignPlayerIds_ends puuids state
  obtain ⟨-, rfl⟩ := ends.unique assigned
  have apart := assign_apart state.ram state.tables puuids state.tables.players
  have cohort : (state.assigned puuids).ram.cohort = state.ram.cohort := by
    show (state.ram.assign puuids).1.cohort = _
    rw [assign_rest]
  refine ⟨sound.carry ⟨rfl, rfl, rfl, fun _ here => here⟩ (.inl rfl) apart.seen apart.dirtyBitmaps
    (fun pid => ?_) fun pid here => ?_, rfl, cohort⟩
  · rw [cohort]
    exact sound.cohort pid
  · rw [cohort]
    exact here

/-! ## The open store -/

/-- The bitmaps that are loaded are those of the platforms. -/
theorem load_seen (platforms : List String) (tables : Tables) (platform : String) :
    (Ram.load platforms tables).seen.get platform =
      if platform ∈ platforms then some ((tables.bitmaps.get platform).getD ∅) else none := by
  rw [Ram.load, Table.get_foldl_insert, Table.get_empty]

/-- **An opening** makes the memory from the durable tables, which stay as they are. -/
theorem openStore_sound (durable : state.durable.Sound) (fallen : state.tables = state.durable)
    (ends : Ends (openStore platforms) state () next) :
    next.Sound platforms ∧ next.tables = state.tables ∧ next.durable = state.durable := by
  obtain ⟨-, rfl⟩ := ends.unique (openStore_ends platforms state)
  refine ⟨⟨fallen ▸ durable, fallen ▸ durable, rfl, mem_load_cohort platforms state.tables,
    fun platform enabled gameId here => ?_, fun _ platform gameId here => ?_⟩, rfl, fallen⟩
  · rw [isSeen_eq]
    unfold seenIn at here ⊢
    simp only [load_seen, if_pos enabled]
    exact here
  · rw [isSeen_eq] at here
    unfold seenIn at here ⊢
    simp only [load_seen] at here
    split at here
    · exact here
    · simp at here

end Calls

end LolCrawler.Store
