import LolCrawler.Server.Members

/-! # What a step of the server makes durable

Players and members are never taken back while the server runs. What is durable after a step
is what was durable before it, or else it has all players and members that the tables had: a
checkpoint makes the whole database durable. So whatever else the database holds, a crash falls
back to a moment at which players and members were as far as the rest (`Saving`).
-/

namespace LolCrawler.Server

open Foundation Segment Store

/-- No player and no member goes. -/
structure Grown (before after : Tables) : Prop where
  players : ∀ puuid pid, before.players.get puuid = some pid → after.players.get puuid = some pid
  cohort : ∀ pid, (before.cohort.get pid).isSome → (after.cohort.get pid).isSome

/-- The same players and members have grown. -/
theorem Grown.of_same {before after : Tables} (players : after.players = before.players)
    (cohort : after.cohort = before.cohort) : Grown before after :=
  ⟨fun _ _ here => players ▸ here, fun _ here => cohort ▸ here⟩

/-- Growth is transitive. -/
theorem Grown.trans {first second third : Tables} (one : Grown first second)
    (two : Grown second third) : Grown first third :=
  ⟨fun puuid pid here => two.players puuid pid (one.players puuid pid here),
    fun pid here => two.cohort pid (one.cohort pid here)⟩

/-- What is durable of the other tables of the database after a step, where `value` is what they
hold and `saved` what was durable of them. -/
inductive Saving {Value : Type} (before after : Crawl) (value saved : Value) : Value → Prop where
  | kept (same : after.store.durable = before.store.durable) : Saving before after value saved saved
  | checkpoint (grown : Grown before.store.tables after.store.durable) :
      Saving before after value saved value

/-! ## Calls -/

section Calls

variable {codecs : Codecs} {platforms : List String} {state next : State}

/-- A change of the frontier is a growth. -/
theorem onlyFrontier_grown {before after : State} (only : OnlyFrontier before after) :
    Grown before.tables after.tables := by
  obtain ⟨_, _, _, _, same⟩ := only
  rw [same]
  exact .of_same rfl rfl

/-- A match is a growth. -/
theorem committed_grown (sound : state.Sound platforms)
    (same : SamePlayers state.ram state.tables.players) (given : Match) :
    Grown state.tables (given.committed state).tables where
  players puuid pid here := by
    rw [committed_playerRows]
    exact same.keeps given.puuids here
  cohort pid here := by
    have forward := sound.committed given
    exact (forward.sound.cohort pid).mp (forward.members pid ((sound.cohort pid).mpr here))

/-- What archives is a growth, and so is what becomes durable. -/
theorem archiving_grown {before after : State} (archiving : Archiving before after) :
    Grown before.tables after.tables ∧
      (after.durable = before.durable ∨ Grown before.tables after.durable) := by
  obtain ⟨-, ⟨_, _, tables⟩, durable⟩ := archiving
  refine ⟨by rw [tables]; exact .of_same rfl rfl, durable.imp_right ?_⟩
  rintro ⟨_, _, same⟩
  rw [same]
  exact .of_same rfl rfl

/-- **A match** with the players it adopts. -/
theorem storeVisited_grown {given : Match} {clock : Clock} {adopted : List (Nat × String)}
    {queued : List (Nat × String)} {between : State} {nowMs : Nat}
    (sound : state.Sound platforms)
    (same : SamePlayers state.ram state.tables.players)
    (stored : Ends (storeMatch codecs given.record given.puuids given.tsMs given.growthPaused clock)
      state adopted between)
    (pushed : Ends (pushAdopted given.record.platform nowMs queued) between () next) :
    Grown state.tables next.tables ∧
      (next.durable = state.durable ∨ Grown state.tables next.durable) := by
  obtain ⟨archived, archiving, rfl⟩ := storeMatch_leaves codecs stored
  have only := pushAdopted_only pushed
  have queued : Grown archived.tables next.tables := by
    have grown := onlyFrontier_grown only
    exact grown
  have committed := committed_grown sound same given
  obtain ⟨tables, durable⟩ := archiving_grown archiving
  refine ⟨committed.trans (tables.trans queued), ?_⟩
  rw [only.durable]
  rcases durable with kept | grown
  · exact .inl (kept.trans (given.inTxn_outside state).durable)
  · exact .inr (committed.trans grown)

/-- Those from before and the new ones are members. -/
theorem mem_enrol_of {new : List Nat} {ram : Ram} {pid : Nat}
    (listed : pid ∈ ram.cohort ∨ pid ∈ new) : pid ∈ (new.foldl Ram.enrol ram).cohort := by
  induction new generalizing ram with
  | nil => exact listed.elim id nofun
  | cons first new ih =>
      apply ih
      rcases listed with before | listed
      · exact .inl (Finset.mem_insert_of_mem before)
      · rcases List.mem_cons.mp listed with rfl | later
        · exact .inl (Finset.mem_insert_self _ _)
        · exact .inr later

/-- A push is no new player. -/
theorem pushedAll_players (platform : String) (dueMs bucket : Nat)
    (items : List (Nat × FrontierTask)) (tables : Tables) :
    (items.foldl (Tables.pushed platform bucket dueMs) tables).players = tables.players := by
  obtain ⟨_, _, same⟩ := Tables.pushedAll_rest platform dueMs bucket items tables
  rw [same]

/-- **An enrolment.** All who are listed are members after it. -/
theorem enroll_grown {platform : String} {entries : List (String × RankSnap)}
    {source nowMs newly : Nat} (sound : state.Sound platforms)
    (same : SamePlayers state.ram state.tables.players)
    (ends : Ends (enroll platform entries source nowMs) state newly next) :
    Grown state.tables next.tables ∧ next.durable = state.durable ∧
      ∀ entry ∈ entries, ∃ pid, next.tables.players.get entry.1 = some pid ∧
        (next.tables.cohort.get pid).isSome := by
  have forward := (enroll_forward sound ends).1
  obtain ⟨between, enrols⟩ := enroll_leaves sound ends
  have players : next.tables.players =
      addPlayers state.tables.players (state.ram.assign (entries.map Prod.fst)).2.2 := by
    rw [enrols.tables, pushedAll_players]
    exact enrols.players
  refine ⟨⟨fun puuid pid here => ?_, fun pid here => ?_⟩, enrols.durable, fun entry inside => ?_⟩
  · rw [players]
    exact same.keeps (entries.map Prod.fst) here
  · exact (forward.sound.cohort pid).mp (forward.members pid ((sound.cohort pid).mpr here))
  · obtain ⟨slot, takes⟩ := List.mem_iff_getElem?.mp inside
    have named : (entries.map Prod.fst)[slot]? = some entry.1 := by
      rw [List.getElem?_map, takes]
      rfl
    have issued := @get_assign state.ram _ _ _ named
    have short : slot < (state.ram.assign (entries.map Prod.fst)).2.1.length := by
      rw [length_assign]
      exact (List.getElem?_eq_some_iff.mp named).1
    rw [List.getElem?_eq_getElem short, same.assign] at issued
    refine ⟨_, players ▸ issued.symm, (forward.sound.cohort _).mp ?_⟩
    rw [enrols.cohort]
    apply mem_enrol_of
    by_cases before : (state.ram.assign (entries.map Prod.fst)).2.1[slot] ∈
        (state.assigned (entries.map Prod.fst)).ram.cohort
    · exact .inl before
    · exact .inr (List.mem_filter.mpr ⟨List.getElem_mem short, decide_eq_true before⟩)

/-- The commit of the store. -/
theorem commit_grown {nowMs : Nat} {order : List String}
    (ends : Ends (commit codecs nowMs order) state () next) :
    Grown state.tables next.tables ∧ Grown state.tables next.durable := by
  obtain ⟨⟨players, cohort⟩, players', cohort'⟩ := commit_members ends
  exact ⟨.of_same players cohort, .of_same players' cohort'⟩

/-- A call that a crash cuts short. -/
theorem Call.saves {call : Call} {after : State} {cut cut' : Cut} {halt : Halt Site}
    (sound : state.Sound platforms) (same : SamePlayers state.ram state.tables.players)
    (up : call ≠ .openStore)
    (run : call.run codecs platforms ⟨state, cut⟩ = (.error halt, ⟨after, cut'⟩)) :
    after.durable = state.durable ∨ Grown state.tables after.durable := by
  suffices Meets (call.run codecs platforms) state (fun _ _ => True)
      fun _ after => after.durable = state.durable ∨ Grown state.tables after.durable from
    this.error run
  refine Call.meets_cut up (fun after kept => .inl kept) (fun given clock _ => ?_)
    fun nowMs order _ => ?_
  · have committed := committed_grown sound same given
    refine (storeVisited_cut given clock).mono (fun _ _ _ => trivial) fun _ after left => ?_
    obtain ⟨between, archiving, durable⟩ := left
    rw [durable]
    rcases (archiving_grown archiving).2 with kept | grown
    · exact .inl (kept.trans (given.inTxn_outside state).durable)
    · exact .inr (committed.trans grown)
  · refine (commit_cut nowMs order).mono (fun _ _ _ => trivial) fun _ after left => ?_
    obtain ⟨between, archiving, durable⟩ := left
    rw [durable]
    exact (archiving_grown archiving).2

/-- **A step of a visit** only grows the tables, and the durable ones with them. -/
theorem visitStep_grown {stopped : Bool} {now after : Visiting} {event : VisitEvent}
    (sound : now.store.Sound platforms)
    (same : SamePlayers now.store.ram now.store.tables.players)
    (step : VisitStep codecs stopped now event after) :
    Grown now.store.tables after.store.tables ∧
      (after.store.durable = now.store.durable ∨
        Grown now.store.tables after.store.durable) := by
  cases visitStep_moves step with
  | quiet seen dirty ranks left =>
      rw [left]
      exact ⟨.of_same rfl rfl, .inl rfl⟩
  | pushed dueMs given ends =>
      have only := frontierPush_only ends
      exact ⟨onlyFrontier_grown only, .inl only.durable⟩
  | stored matchId given clock failed adopted between own stored pushed =>
      exact storeVisited_grown sound same stored pushed

end Calls

/-! ## Steps -/

/-- The process ends. -/
def Event.ends : Event → Bool
  | .exit .. | .crash _ => true
  | _ => false

section Steps

variable {codecs : Codecs} {platforms : List String} {crawl next : Crawl} {event : Event}

/-- **One step of the server** takes no player and no member, unless the process ends; and what
is durable after it is what was, or has them all. -/
theorem CrawlStep.grown (step : CrawlStep codecs platforms crawl event next)
    (sound : crawl.Sound platforms)
    (same : crawl.mode ≠ .down → SamePlayers crawl.store.ram crawl.store.tables.players) :
    (event.ends = false → Grown crawl.store.tables next.store.tables) ∧
      (next.store.durable = crawl.store.durable ∨
        Grown crawl.store.tables next.store.durable) := by
  have still : Grown crawl.store.tables crawl.store.tables := .of_same rfl rfl
  cases event with
  | openStore =>
      obtain ⟨mode, store, ends, rfl⟩ := step
      obtain ⟨fallen, durable⟩ := sound.down mode
      obtain ⟨-, tables, durable'⟩ := openStore_sound durable fallen ends
      exact ⟨fun _ => .of_same (by rw [tables]) (by rw [tables]), .inl durable'⟩
  | reconcile nowMs =>
      obtain ⟨mode, count, store, ends, rfl⟩ := step
      have held := sound.up (by rw [mode]; nofun)
      obtain ⟨only, -, -⟩ := frontierReconcile_pushes held.tables.orderly ends
      exact ⟨fun _ => onlyFrontier_grown only, .inl only.durable⟩
  | backfill nowMs =>
      obtain ⟨mode, count, store, ends, rfl⟩ := step
      have held := sound.up (by rw [mode]; nofun)
      obtain ⟨only, -, -⟩ := frontierBackfillReset_queued held.tables.orderly ends
      exact ⟨fun _ => onlyFrontier_grown only, .inl only.durable⟩
  | spawn =>
      obtain ⟨-, rfl⟩ := step
      exact ⟨fun _ => still, .inl rfl⟩
  | popDue platform nowMs =>
      obtain ⟨mode, -, -, result, store, ends, rfl⟩ := step
      have held := sound.up (by rw [mode]; nofun)
      obtain ⟨only, -, -⟩ := frontierPopDue_pops held.tables.orderly ends
      exact ⟨fun _ => onlyFrontier_grown only, .inl only.durable⟩
  | check platform =>
      obtain ⟨running, -, -, rfl⟩ := step
      exact ⟨fun _ => still, .inl rfl⟩
  | visit platform event =>
      obtain ⟨running, here, -, store, visit, step, rfl⟩ := step
      have up : crawl.mode ≠ .down := by rw [sound.serving here]; nofun
      obtain ⟨grown, durable⟩ := visitStep_grown (sound.up up) (same up) step
      exact ⟨fun _ => grown, durable⟩
  | enroll platform entries source nowMs =>
      obtain ⟨mode, -, -, newly, store, ends, rfl⟩ := step
      have up : crawl.mode ≠ .down := by rw [mode]; nofun
      obtain ⟨grown, durable, -⟩ := enroll_grown (sound.up up) (same up) ends
      exact ⟨fun _ => grown, .inl durable⟩
  | snapshot pid tsMs snap =>
      obtain ⟨-, store, ends, rfl⟩ := step
      cases ends
      exact ⟨fun _ => still, .inl rfl⟩
  | commit nowMs order =>
      obtain ⟨-, store, ends, rfl⟩ := step
      obtain ⟨tables, durable⟩ := commit_grown ends
      exact ⟨fun _ => tables, .inr durable⟩
  | persist =>
      obtain ⟨-, rfl⟩ := step
      exact ⟨fun _ => still, .inr still⟩
  | stop =>
      obtain ⟨-, rfl⟩ := step
      exact ⟨fun _ => still, .inl rfl⟩
  | exit nowMs order =>
      obtain ⟨-, -, -, store, ends, ended⟩ := step
      exact ⟨nofun, .inr (ended.durable ▸ (commit_grown ends).2)⟩
  | crash during =>
      obtain ⟨store, cut, ended⟩ := step
      refine ⟨nofun, ?_⟩
      rw [ended.durable]
      cases during with
      | none =>
          cases cut
          exact .inl rfl
      | some call =>
          obtain ⟨mode, before, rest, run⟩ := cut
          by_cases opening : call = .openStore
          · subst opening
            rcases (openStore_durable platforms crawl.store).error run with kept | fallen
            · exact .inl kept
            · exact .inl (fallen.trans (sound.down mode.symm).1)
          · have up : crawl.mode ≠ .down := by
              rw [← mode]
              cases call with
              | openStore => exact (opening rfl).elim
              | _ => nofun
            exact Call.saves (sound.up up) (same up) opening run

/-- For every step there is a way to save the rest of the database. -/
theorem CrawlStep.saving {Value : Type} (step : CrawlStep codecs platforms crawl event next)
    (sound : crawl.Sound platforms)
    (same : crawl.mode ≠ .down → SamePlayers crawl.store.ram crawl.store.tables.players)
    (value saved : Value) : ∃ result, Saving crawl next value saved result := by
  rcases (step.grown sound same).2 with kept | grown
  · exact ⟨saved, .kept kept⟩
  · exact ⟨value, .checkpoint grown⟩

end Steps

end LolCrawler.Server
