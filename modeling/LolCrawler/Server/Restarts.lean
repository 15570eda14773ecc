import LolCrawler.Server.Backfill
import LolCrawler.Store.Stranded

/-! # Restarts

A popped task is absent from the frontier for the whole visit, and other regions may make
this absence durable. After a crash the reconciliation puts the stranded members back. It
does so exactly on the tables that it can recover (`Recoverable`): a member from the ladder
who has no game yet is not put back, and no ladder page is read twice; where two
platforms have a game of the same id, the first of them is taken; and a remake has no row, so
that the platform is that of the latest other game.
-/

namespace LolCrawler.Server

open Foundation Segment Store

/-- Calls as the server makes them: players are enrolled from the ladders, and matches are those
of an enabled platform. -/
def Call.Made (platforms : List String) : Call → Prop
  | .enroll _ _ source _ => source = cohortSrcApex ∨ source = cohortSrcLadder
  | .storeVisited given _ => given.record.platform ∈ platforms
  | _ => True

def Event.Made (platforms : List String) : Event → Prop
  | .enroll platform entries source nowMs =>
      Call.Made platforms (.enroll platform entries source nowMs)
  | .crash (some call) => call.Made platforms
  | _ => True

/-- The match that this event stores, or that a crash cuts short. -/
def Event.stored : Event → Option Match
  | .visit _ (.store _ given _ _) => some given
  | .crash (some (.storeVisited given _)) => some given
  | _ => none

/-- The matches of a run. -/
def storedIn (events : List Event) : List Match := events.filterMap Event.stored

/-- A step of the server, with calls that it makes. -/
def MadeStep (codecs : Codecs) (platforms : List String) (crawl : Crawl) (event : Event)
    (next : Crawl) : Prop :=
  CrawlStep codecs platforms crawl event next ∧ event.Made platforms

/-! ## What the tables are founded on -/

/-- Members, players, rows and progress are the same. -/
structure SameMembers (before after : Tables) : Prop where
  players : after.players = before.players
  cohort : after.cohort = before.cohort
  playerTl : after.playerTl = before.playerTl
  progress : after.progress = before.progress

/-- The memory has the players of the tables, and both kinds of tables are founded on these
matches. -/
structure Rooted (calls : List Match) (platforms : List String) (state : State) : Prop where
  players : SamePlayers state.ram state.tables.players
  tables : Founded calls platforms state.tables
  durable : Founded calls platforms state.durable

section Rooted

variable {codecs : Codecs} {calls : List Match} {platforms : List String}
  {before after state next : State}

/-- The same members are founded on the same matches. -/
theorem SameMembers.founded {first second : Tables} (same : SameMembers first second)
    (founded : Founded calls platforms first) : Founded calls platforms second :=
  founded.congr same.players same.cohort same.playerTl same.progress

/-- A step that changes neither members nor games. -/
theorem Rooted.carry (rooted : Rooted calls platforms before)
    (ram : after.ram.players = before.ram.players) (tables : SameMembers before.tables after.tables)
    (durable : after.durable = before.durable ∨ SameMembers before.tables after.durable) :
    Rooted calls platforms after where
  players := by
    rw [SamePlayers, ram, tables.players]
    exact rooted.players
  tables := tables.founded rooted.tables
  durable := by
    rcases durable with same | carries
    · rw [same]
      exact rooted.durable
    · exact carries.founded rooted.tables

/-- Tables whose frontier changes stay rooted. -/
theorem Rooted.queue (rooted : Rooted calls platforms before) (only : OnlyFrontier before after) :
    Rooted calls platforms after := by
  obtain ⟨ram, durable, _, _, tables⟩ := only
  refine rooted.carry (by rw [ram]) ?_ (.inl durable)
  rw [tables]
  exact ⟨rfl, rfl, rfl, rfl⟩

/-- A change of the memory that keeps the ids of the players keeps the state rooted. -/
theorem Rooted.ram (rooted : Rooted calls platforms before) {ram : Ram}
    (same : ram.players = before.ram.players) :
    Rooted calls platforms { before with ram := ram } :=
  rooted.carry same ⟨rfl, rfl, rfl, rfl⟩ (.inl rfl)

/-- A rank that waits leaves the tables rooted. -/
theorem Rooted.rank (rooted : Rooted calls platforms before)
    (pendingRanks : List (Nat × Nat × RankSnap)) :
    Rooted calls platforms
      { before with ram := { before.ram with pendingRanks := pendingRanks } } := rooted.ram rfl

/-- A durable commit leaves the tables rooted. -/
theorem Rooted.persist (rooted : Rooted calls platforms before) :
    Rooted calls platforms { before with durable := before.tables } :=
  rooted.carry rfl ⟨rfl, rfl, rfl, rfl⟩ (.inr ⟨rfl, rfl, rfl, rfl⟩)

/-- What archives leaves the tables rooted. -/
theorem Rooted.archiving (rooted : Rooted calls platforms before)
    (archiving : Archiving before after) : Rooted calls platforms after := by
  obtain ⟨⟨_, _, ram⟩, ⟨_, _, tables⟩, durable⟩ := archiving
  refine rooted.carry (by rw [ram]) ?_ (durable.imp_right ?_)
  · rw [tables]
    exact ⟨rfl, rfl, rfl, rfl⟩
  · rintro ⟨_, _, same⟩
    rw [same]
    exact ⟨rfl, rfl, rfl, rfl⟩

/-- A match is a root of its players. -/
theorem Rooted.committed (rooted : Rooted calls platforms state) {given : Match}
    (inside : given ∈ calls) (enabled : given.record.platform ∈ platforms) :
    Rooted calls platforms (given.committed state) where
  players := rooted.players.committed given
  tables := rooted.tables.committed rooted.players inside enabled
  durable := by
    rw [show (given.committed state).durable = state.durable from
      (given.inTxn_outside state).durable]
    exact rooted.durable

/-- A push changes the frontier only. -/
theorem frontierPush_only {platform : String} {dueMs pid : Nat} {task : FrontierTask}
    (ends : Ends (frontierPush platform bucketPriority dueMs pid task) state () next) :
    OnlyFrontier state next := by
  rw [(ends.unique (frontierPush_ends _ _ _ _ _ _)).2]
  exact ⟨rfl, rfl, Tables.pushed_rest _ _ _ _ _⟩

/-- The adopted change the frontier only. -/
theorem pushAdopted_only {platform : String} {nowMs : Nat} {adopted : List (Nat × String)}
    (ends : Ends (pushAdopted platform nowMs adopted) state () next) : OnlyFrontier state next := by
  induction adopted generalizing state with
  | nil =>
      rw [(ends.unique (rfl : Ends (pushAdopted platform nowMs []) state () state)).2]
      exact .refl _
  | cons player adopted ih =>
      obtain ⟨pid, puuid⟩ := player
      have pushed := frontierPush_ends platform bucketPriority nowMs pid ⟨puuid, 0⟩ state
      have rest := ends
      unfold Ends pushAdopted at rest
      rw [Prog.bind_of_ok pushed] at rest
      exact (frontierPush_only pushed).trans (ih rest)

/-- **A stored match** keeps the state rooted. -/
theorem Rooted.storeMatch (rooted : Rooted calls platforms state) {given : Match} {clock : Clock}
    {adopted : List (Nat × String)} (inside : given ∈ calls)
    (enabled : given.record.platform ∈ platforms)
    (ends : Ends (storeMatch codecs given.record given.puuids given.tsMs given.growthPaused clock)
      state adopted next) : Rooted calls platforms next := by
  obtain ⟨between, archiving, rfl⟩ := storeMatch_leaves codecs ends
  exact ((rooted.committed inside enabled).archiving archiving).ram rfl

/-- **A commit** keeps the state rooted. -/
theorem Rooted.commit (rooted : Rooted calls platforms state) {nowMs : Nat} {order : List String}
    (ends : Ends (commit codecs nowMs order) state () next) : Rooted calls platforms next := by
  have meets : Meets (Store.commit codecs nowMs order) state
      (fun _ after => Rooted calls platforms after) fun _ _ => True := by
    rw [commit_eq]
    refine Meets.bind ((checkpointFlush_archiving codecs nowMs order state).mono
      (fun _ _ here => here) fun _ _ _ => trivial) fun _ between archiving => ?_
    refine (commitBitmaps_meets between).mono (fun _ after same => ?_) fun _ _ _ => trivial
    have flushed := rooted.archiving archiving
    rw [same]
    split
    · exact flushed.carry rfl ⟨rfl, rfl, rfl, rfl⟩ (.inr ⟨rfl, rfl, rfl, rfl⟩)
    · exact flushed
  exact ends.meets meets

/-- Players with ids are rooted. -/
theorem Rooted.assign (rooted : Rooted calls platforms state) {puuids : List String}
    {ids : List Nat} (ends : Ends (assignPlayerIds puuids) state ids next) :
    Rooted calls platforms next ∧ ∀ pid ∈ ids, ∃ puuid,
      next.tables.players.get puuid = some pid := by
  have assigned := assignPlayerIds_ends puuids state
  obtain ⟨rfl, rfl⟩ := ends.unique assigned
  refine ⟨⟨rooted.players.assign _, rooted.tables.assign rooted.players _, rooted.durable⟩,
    fun pid inside => ?_⟩
  obtain ⟨slot, takes⟩ := List.mem_iff_getElem?.mp inside
  obtain ⟨puuid, -, known⟩ := rooted.players.assigned takes
  exact ⟨puuid, known⟩

/-- New members are rooted in the list that they are from. -/
theorem Rooted.addBatch (rooted : Rooted calls platforms state) {players new : List Nat}
    {source nowMs : Nat} (listed : source ≠ cohortSrcAdopted)
    (known : ∀ pid ∈ players, ∃ puuid, state.tables.players.get puuid = some pid)
    (ends : Ends (cohortAddBatch players source nowMs) state new next) :
    Rooted calls platforms next := by
  obtain ⟨working, batch⟩ := cohortAddBatch_ends players source nowMs state
  obtain ⟨rfl, rfl⟩ := ends.unique batch
  refine ⟨?_, rooted.tables.enrolled listed nowMs fun pid inside =>
    known pid (List.mem_of_mem_filter inside), rooted.durable⟩
  obtain ⟨_, _, rest⟩ := enrolAll_rest nowMs source
    (players.filter fun pid => pid ∉ state.ram.cohort) state.tables
  rw [SamePlayers, enrolled_players, rest]
  exact rooted.players

/-- **An enrolment** from a league or a ladder page keeps the state rooted. -/
theorem Rooted.enroll (rooted : Rooted calls platforms state) {platform : String}
    {entries : List (String × RankSnap)} {source nowMs newly : Nat}
    (listed : source = cohortSrcApex ∨ source = cohortSrcLadder)
    (ends : Ends (enroll platform entries source nowMs) state newly next) :
    Rooted calls platforms next := by
  have listed' : source ≠ cohortSrcAdopted := by
    rcases listed with rfl | rfl
    · decide
    · decide
  have assigned := assignPlayerIds_ends (entries.map Prod.fst) state
  obtain ⟨first, known⟩ := rooted.assign assigned
  obtain ⟨_, batch⟩ := cohortAddBatch_ends (state.ram.assign (entries.map Prod.fst)).2.1 source
    nowMs _
  have second := first.addBatch listed' known batch
  obtain ⟨pendingRanks, buffered⟩ := bufferRanks_ends nowMs
    ((state.ram.assign (entries.map Prod.fst)).2.1.zip (entries.map Prod.snd)) _
  have third := second.rank pendingRanks
  obtain ⟨_, pushed⟩ := frontierPushBatch_ends platform bucketPriority nowMs
    (((state.ram.assign (entries.map Prod.fst)).2.1.zip (entries.map Prod.fst)).map
      fun player => (player.1, (⟨player.2, 0⟩ : FrontierTask))) _
  have whole : Ends (Server.enroll platform entries source nowMs) state _ _ :=
    assigned.bind (batch.bind (buffered.bind (pushed.bind rfl)))
  obtain ⟨-, rfl⟩ := ends.unique whole
  exact third.queue ⟨rfl, rfl, Tables.pushedAll_rest _ _ _ _ _⟩

/-- **A step of a visit** keeps the state rooted. -/
theorem Rooted.visit {stopped : Bool} {now next : Visiting} {event : VisitEvent}
    (rooted : Rooted calls platforms now.store) (enabled : now.visit.platform ∈ platforms)
    (stored : ∀ matchId given clock failed, event = .store matchId given clock failed →
      given ∈ calls)
    (step : VisitStep codecs stopped now event next) : Rooted calls platforms next.store := by
  obtain ⟨store, platform, pid, task, phase⟩ := now
  simp only at rooted enabled
  cases event with
  | page page =>
      cases phase with
      | awaiting ids start =>
          cases step
          exact rooted
      | _ => exact step.elim
  | pageFailed nowMs =>
      cases phase with
      | awaiting ids start => exact rooted.queue (frontierPush_only step.1)
      | _ => exact step.elim
  | nextPage =>
      cases phase with
      | listing ids pageLen start =>
          obtain ⟨-, rfl⟩ := step
          exact rooted
      | _ => exact step.elim
  | list rank =>
      cases phase with
      | listing ids pageLen start =>
          obtain ⟨-, buffered, -⟩ := step
          obtain ⟨pendingRanks, ends⟩ := bufferRank_ends pid rank store
          rw [(buffered.unique ends).2]
          exact rooted.rank pendingRanks
      | _ => exact step.elim
  | select =>
      cases phase with
      | listed ids =>
          cases step
          exact rooted
      | _ => exact step.elim
  | skip matchId =>
      cases phase with
      | fetching ids left =>
          obtain ⟨-, -, rfl⟩ := step
          exact rooted
      | _ => exact step.elim
  | fetchFailed matchId =>
      cases phase with
      | fetching ids left =>
          obtain ⟨-, rfl⟩ := step
          exact rooted
      | _ => exact step.elim
  | mark matchId =>
      cases phase with
      | fetching ids left =>
          obtain ⟨-, other, num, -, marked, -⟩ := step
          rw [(marked.unique (markSeen_ends .markSeen other num store)).2]
          exact rooted.ram rfl
      | _ => exact step.elim
  | store matchId given clock failed =>
      cases phase with
      | fetching ids left =>
          obtain ⟨-, -, own, -, -, ⟨adopted, between, kept, pushed⟩, -⟩ := step
          have first :=
            rooted.storeMatch (stored matchId given clock failed rfl) (own ▸ enabled) kept
          exact first.queue (pushAdopted_only pushed)
      | _ => exact step.elim
  | finish nowMs dueMs =>
      cases phase with
      | fetching ids left =>
          cases left with
          | nil =>
              obtain ⟨ends, -⟩ := step
              unfold reschedule at ends
              split at ends
              · exact rooted.queue (frontierPush_only ends)
              · exact rooted.queue (frontierPush_only ends)
          | cons => exact step.elim
      | _ => exact step.elim

/-- **A call that a crash cuts short.** -/
theorem Rooted.cut {call : Call} {cut cut' : Cut} {halt : Halt Site}
    (rooted : Rooted calls platforms state) (up : call ≠ .openStore) (made : call.Made platforms)
    (stored : ∀ given clock, call = .storeVisited given clock → given ∈ calls)
    (run : call.run codecs platforms ⟨state, cut⟩ = (.error halt, ⟨after, cut'⟩)) :
    Founded calls platforms after.durable := by
  suffices Meets (call.run codecs platforms) state (fun _ _ => True)
      fun _ after => Founded calls platforms after.durable from this.error run
  refine Call.meets_cut up (fun after same => ?_) (fun given clock here => ?_)
    fun nowMs order _ => ?_
  · rw [show after.durable = state.durable from same]
    exact rooted.durable
  · subst here
    have committed := rooted.committed (stored given clock rfl) made
    refine (storeVisited_cut given clock).mono (fun _ _ _ => trivial) fun _ after left => ?_
    obtain ⟨between, archiving, durable⟩ := left
    rw [durable]
    exact (committed.archiving archiving).durable
  · refine (commit_cut nowMs order).mono (fun _ _ _ => trivial) fun _ after left => ?_
    obtain ⟨between, archiving, durable⟩ := left
    rw [durable]
    exact (rooted.archiving archiving).durable

end Rooted

/-! ## Runs -/

/-- What holds in every run: while the server is up, its store is founded on these matches, and so
are the durable tables at any time. -/
structure Crawl.Rooted (calls : List Match) (platforms : List String) (crawl : Crawl) : Prop where
  up : crawl.mode ≠ .down → Server.Rooted calls platforms crawl.store
  durable : Founded calls platforms crawl.store.durable

section Runs

variable {codecs : Codecs} {platforms : List String} {calls : List Match} {crawl next : Crawl}
  {event : Event} {events : List Event}

/-- A server whose store is rooted is rooted. -/
theorem Crawl.Rooted.of_store (rooted : Server.Rooted calls platforms next.store) :
    next.Rooted calls platforms := ⟨fun _ => rooted, rooted.durable⟩

/-- What a crash falls back to. -/
theorem Crawl.Rooted.cut (rooted : crawl.Rooted calls platforms) (sound : crawl.Sound platforms)
    {during : Option Call} {after : State} (made : Event.Made platforms (.crash during))
    (stored : ∀ given, Event.stored (.crash during) = some given → given ∈ calls)
    (cut : crawl.Cut codecs platforms during after) : Founded calls platforms after.durable := by
  cases during with
  | none =>
      cases cut
      exact rooted.durable
  | some call =>
      obtain ⟨mode, before, rest, run⟩ := cut
      by_cases opening : call = .openStore
      · subst opening
        have fallen := (sound.down mode.symm).1
        have same : after.durable = crawl.store.durable := by
          rcases (openStore_durable platforms crawl.store).error run with same | same
          · exact same
          · exact same.trans fallen
        rw [same]
        exact rooted.durable
      · have up : crawl.mode ≠ .down := by
          rw [← mode]
          cases call with
          | openStore => exact (opening rfl).elim
          | _ => nofun
        exact (rooted.up up).cut opening made
          (fun given clock same => stored given (by rw [same]; rfl))
          run

/-- The server is rooted after the process has ended. -/
theorem Ended.rooted {store : State} (ended : Ended store next)
    (durable : Founded calls platforms store.durable) : next.Rooted calls platforms :=
  ⟨fun up => (up ended.mode).elim, ended.durable ▸ durable⟩

/-- **Each step of the server** keeps it rooted. -/
theorem MadeStep.rooted (step : MadeStep codecs platforms crawl event next)
    (stored : ∀ given, event.stored = some given → given ∈ calls) (sound : crawl.Sound platforms)
    (rooted : crawl.Rooted calls platforms) : next.Rooted calls platforms := by
  obtain ⟨step, made⟩ := step
  cases event with
  | openStore =>
      obtain ⟨mode, store, ends, rfl⟩ := step
      have fallen := (sound.down mode).1
      obtain ⟨-, rfl⟩ := ends.unique (openStore_ends platforms crawl.store)
      have tables : Founded calls platforms crawl.store.tables := fallen ▸ rooted.durable
      exact .of_store ⟨fun _ => rfl, tables, tables⟩
  | reconcile nowMs =>
      obtain ⟨mode, count, store, ends, rfl⟩ := step
      have up : crawl.mode ≠ .down := by rw [mode]; nofun
      obtain ⟨only, -, -⟩ := frontierReconcile_pushes (sound.up up).tables.orderly ends
      exact .of_store ((rooted.up up).queue only)
  | backfill nowMs =>
      obtain ⟨mode, count, store, ends, rfl⟩ := step
      have up : crawl.mode ≠ .down := by rw [mode]; nofun
      obtain ⟨only, -, -⟩ := frontierBackfillReset_queued (sound.up up).tables.orderly ends
      exact .of_store ((rooted.up up).queue only)
  | spawn =>
      obtain ⟨mode, rfl⟩ := step
      exact .of_store (rooted.up (by rw [mode]; nofun))
  | popDue platform nowMs =>
      obtain ⟨mode, -, -, result, store, ends, rfl⟩ := step
      have up : crawl.mode ≠ .down := by rw [mode]; nofun
      obtain ⟨only, -, -⟩ := frontierPopDue_pops (sound.up up).tables.orderly ends
      exact .of_store ((rooted.up up).queue only)
  | check platform =>
      obtain ⟨running, here, -, rfl⟩ := step
      exact .of_store (rooted.up (by rw [sound.serving here]; nofun))
  | visit platform event =>
      obtain ⟨running, here, -, store, visit, step, rfl⟩ := step
      obtain ⟨enabled, own, -⟩ := sound.regions platform running here
      have up := rooted.up (by rw [sound.serving here]; nofun)
      have now : (⟨crawl.store, running.visit⟩ : Visiting).visit.platform ∈ platforms :=
        own ▸ enabled
      exact .of_store (up.visit now
        (fun matchId given clock failed same => stored given (by rw [same]; rfl))
        step)
  | enroll platform entries source nowMs =>
      obtain ⟨mode, -, -, newly, store, ends, rfl⟩ := step
      exact .of_store ((rooted.up (by rw [mode]; nofun)).enroll made ends)
  | snapshot pid tsMs snap =>
      obtain ⟨mode, store, ends, rfl⟩ := step
      cases ends
      exact .of_store ((rooted.up (by rw [mode]; nofun)).rank _)
  | commit nowMs order =>
      obtain ⟨mode, store, ends, rfl⟩ := step
      exact .of_store ((rooted.up (by rw [mode]; nofun)).commit ends)
  | persist =>
      obtain ⟨mode, rfl⟩ := step
      exact .of_store (rooted.up (by rw [mode]; nofun)).persist
  | stop =>
      obtain ⟨mode, rfl⟩ := step
      exact .of_store (rooted.up (by rw [mode]; nofun))
  | exit nowMs order =>
      obtain ⟨mode, -, -, store, ends, ended⟩ := step
      exact ended.rooted ((rooted.up (by rw [mode]; nofun)).commit ends).durable
  | crash during =>
      obtain ⟨store, cut, ended⟩ := step
      exact ended.rooted (rooted.cut sound made stored cut)

/-- **Every reached server** is rooted in the matches that were stored. -/
theorem Crawl.Rooted.reached {start : Crawl}
    (run : Run (MadeStep codecs platforms) start events crawl)
    (stored : ∀ given ∈ storedIn events, given ∈ calls) (sound : start.Sound platforms)
    (rooted : start.Rooted calls platforms) : crawl.Sound platforms ∧
    crawl.Rooted calls platforms := by
  induction run with
  | nil state => exact ⟨sound, rooted⟩
  | @cons start middle crawl event events step run ih =>
      refine ih (fun given inside => stored given ?_) (step.1.sound sound)
        (step.rooted (fun given same => stored given ?_) sound rooted)
      · obtain ⟨other, there, same⟩ := List.mem_filterMap.mp inside
        exact List.mem_filterMap.mpr ⟨other, List.mem_cons_of_mem _ there, same⟩
      · exact List.mem_filterMap.mpr ⟨event, List.mem_cons_self, same⟩

/-- **A restart** strands nobody and puts everybody on the right platform, if and only if the
tables that the store is opened on can be recovered. -/
theorem restart_reconciles_iff (codecs : Codecs) (platforms : List String) {nowMs : Nat}
    (run : Run (MadeStep codecs platforms) .fresh events crawl)
    (reconcile : CrawlStep codecs platforms crawl (.reconcile nowMs) next) :
    Reconciled (storedIn events) crawl.store.tables next.store.tables ↔
      Recoverable (storedIn events) platforms crawl.store.tables := by
  obtain ⟨sound, rooted⟩ := Crawl.Rooted.reached run (fun _ inside => inside) .fresh
    ⟨fun up => (up rfl).elim, .empty⟩
  obtain ⟨mode, count, store, ends, rfl⟩ := reconcile
  have up : crawl.mode ≠ .down := by rw [mode]; nofun
  have founded := rooted.up up
  exact reconciled_iff (sound.up up).tables.orderly founded.players founded.tables ends

end Runs

/-! ## A member from the ladder -/

/-- The store once a page of the ladder is enrolled. -/
def ladderStore : State :=
  (enroll "EUW1" [("a", sampleRank)] cohortSrcLadder 5 ⟨firstStore, .never⟩).2.state

/-- The store while the member is visited. -/
def ladderVisited : State := (frontierPopDue "EUW1" 7 ⟨ladderStore, .never⟩).2.state

/-- The store once another region has committed. -/
def ladderSaved : State := (commit shortCodecs 8 [] ⟨ladderVisited, .never⟩).2.state

/-- The store of the next start. -/
def ladderReopened : State :=
  { ladderSaved with
    tables := ladderSaved.durable
    working := ladderSaved.durable
    ram := Ram.load ["EUW1"] ladderSaved.durable }

def ladderReconciled : State :=
  (frontierReconcile ["EUW1"] 9 ⟨ladderReopened, .never⟩).2.state

/-- The next start is reached. -/
theorem ladder_reopened : ∃ events, Run (MadeStep shortCodecs ["EUW1"]) .fresh events
    ⟨ladderReopened, .opened, false, fun _ => none⟩ := by
  have opened : MadeStep shortCodecs ["EUW1"] .fresh .openStore
      ⟨firstStore, .opened, false, fun _ => none⟩ := ⟨⟨rfl, _, rfl, rfl⟩, trivial⟩
  have ready : MadeStep shortCodecs ["EUW1"] ⟨firstStore, .opened, false, fun _ => none⟩
      (.reconcile 4) ⟨firstStore, .ready, false, fun _ => none⟩ :=
    ⟨⟨rfl, 0, _, rfl, rfl⟩, trivial⟩
  have spawned : MadeStep shortCodecs ["EUW1"] ⟨firstStore, .ready, false, fun _ => none⟩ .spawn
      ⟨firstStore, .serving, false, fun _ => none⟩ := ⟨⟨rfl, rfl⟩, trivial⟩
  have listed : MadeStep shortCodecs ["EUW1"] ⟨firstStore, .serving, false, fun _ => none⟩
      (.enroll "EUW1" [("a", sampleRank)] cohortSrcLadder 5)
      ⟨ladderStore, .serving, false, fun _ => none⟩ :=
    ⟨⟨rfl, List.mem_singleton_self _, rfl, 1, _,
      .of_eq (by decide +kernel) (by decide +kernel), rfl⟩,
      .inr rfl⟩
  have popped : MadeStep shortCodecs ["EUW1"] ⟨ladderStore, .serving, false, fun _ => none⟩
      (.popDue "EUW1" 7) (Crawl.setVisit ⟨ladderVisited, .serving, false, fun _ => none⟩ "EUW1"
        (some (Running.started "EUW1" 1 ⟨"a", 0⟩))) :=
    ⟨⟨rfl, List.mem_singleton_self _, rfl, some (0, 1, ⟨"a", 0⟩), _,
      .of_eq (by decide +kernel) (by decide +kernel), rfl⟩, trivial⟩
  have saved : MadeStep shortCodecs ["EUW1"]
      (Crawl.setVisit ⟨ladderVisited, .serving, false, fun _ => none⟩ "EUW1"
        (some (Running.started "EUW1" 1 ⟨"a", 0⟩))) (.commit 8 [])
      (Crawl.setVisit ⟨ladderSaved, .serving, false, fun _ => none⟩ "EUW1"
        (some (Running.started "EUW1" 1 ⟨"a", 0⟩))) :=
    ⟨⟨rfl, _, .of_eq (by decide +kernel) (by decide +kernel), rfl⟩, trivial⟩
  have crashed : MadeStep shortCodecs ["EUW1"]
      (Crawl.setVisit ⟨ladderSaved, .serving, false, fun _ => none⟩ "EUW1"
        (some (Running.started "EUW1" 1 ⟨"a", 0⟩))) (.crash none)
      ⟨{ ladderSaved with tables := ladderSaved.durable, ram := .empty }, .down, false,
        fun _ => none⟩ := ⟨⟨_, rfl, rfl, rfl, rfl, rfl, rfl, rfl⟩, trivial⟩
  have again : MadeStep shortCodecs ["EUW1"]
      ⟨{ ladderSaved with tables := ladderSaved.durable, ram := .empty }, .down, false,
        fun _ => none⟩ .openStore ⟨ladderReopened, .opened, false, fun _ => none⟩ :=
    ⟨⟨rfl, _, rfl, rfl⟩, trivial⟩
  exact ⟨_, .cons opened (.cons ready (.cons spawned (.cons listed (.cons popped (.cons saved
    (.cons crashed (.cons again (.nil _))))))))⟩

/-- The next start reconciles its tables. -/
theorem ladder_reconciled : CrawlStep shortCodecs ["EUW1"]
    ⟨ladderReopened, .opened, false, fun _ => none⟩ (.reconcile 9)
    ⟨ladderReconciled, .ready, false, fun _ => none⟩ :=
  ⟨rfl, 0, _, .of_eq (by decide +kernel) (by decide +kernel), rfl⟩

/-- The member is back on its platform if and only if the tables say where that is. -/
theorem restart_reconciles_iff_ladder : ∃ events,
    Reconciled (storedIn events) ladderReopened.tables ladderReconciled.tables ↔
      Recoverable (storedIn events) ["EUW1"] ladderReopened.tables := by
  obtain ⟨events, run⟩ := ladder_reopened
  exact ⟨events, restart_reconciles_iff shortCodecs ["EUW1"] run ladder_reconciled⟩

/-- A member from the ladder is popped, another region commits, and the server crashes. -/
theorem restart_strands_member :
    ¬ ∀ (codecs : Codecs) (platforms : List String) (events : List Event) (crawl next : Crawl)
      (nowMs : Nat), Run (MadeStep codecs platforms) .fresh events crawl →
      CrawlStep codecs platforms crawl (.reconcile nowMs) next →
      Reconciled (storedIn events) crawl.store.tables next.store.tables := by
  intro claim
  obtain ⟨events, run⟩ := ladder_reopened
  have reconciled := claim shortCodecs ["EUW1"] events _ _ 9 run ladder_reconciled
  have member : ladderReconciled.tables.cohort.get 1 = some (5, cohortSrcLadder) := by
    decide +kernel
  have empty : ladderReconciled.tables.frontier.entries = [] := by decide +kernel
  obtain ⟨key, here, -⟩ := reconciled.waits 1 5 cohortSrcLadder member (.inr rfl)
  obtain ⟨task, here⟩ := Option.isSome_iff_exists.mp here
  have inside := Table.get_eq_some.mp here
  rw [show ladderReconciled.tables.frontier.entries = [] from empty] at inside
  cases inside

end LolCrawler.Server
