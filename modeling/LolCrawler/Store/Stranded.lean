import LolCrawler.Store.Forward

/-! # Members without a task

What the reconciliation does to each player: a stranded member gets one task, on the first
platform that has a game of the id of its latest row, and nobody else's rows change
(`frontierReconcile_rows`). Adopted members have a row in the timeline, and every row is
that of a stored match (`Founded`), which the calls of the store keep.
-/

namespace LolCrawler.Store

open Foundation Segment Prog

def cohortSrcApex : Nat := 0

def cohortSrcLadder : Nat := 2

/-- The row of a player's latest game. -/
def Tables.latest (tables : Tables) (pid : Nat) : Option TlEntry :=
  (tables.timeline pid fun _ => true).getLast?

/-! ## What is re-queued -/

section Requeued

variable {tables : Tables} {platforms : List String} {ram : Ram} {pid : Nat}

/-- The stranded are the members without a task. -/
theorem mem_stranded :
    pid ∈ tables.stranded ↔
      (tables.cohort.get pid).isSome ∧ tables.frontierIdx.get pid = none := by
  rw [Tables.stranded, List.mem_filter, List.mem_insertionSort, Option.isNone_iff_eq_none,
    Option.isSome_iff_exists]
  refine and_congr_left fun _ => ⟨fun inside => ?_, fun held => ?_⟩
  · obtain ⟨entry, there, rfl⟩ := List.mem_map.mp inside
    exact ⟨entry.2, Table.get_eq_some.mpr there⟩
  · obtain ⟨row, here⟩ := held
    exact List.mem_map.mpr ⟨(pid, row), Table.get_eq_some.mp here, rfl⟩

/-- The latest row of a player is a row of the player. -/
theorem latest_row {entry : TlEntry} (latest : tables.latest pid = some entry) :
    tables.playerTl.get entry.1 = some entry.2 ∧ entry.1.1 = pid := by
  obtain ⟨row, own, -⟩ := mem_timeline.mp (List.mem_of_getLast? latest)
  exact ⟨row, own⟩

/-- A player with a row has a latest one. -/
theorem latest_isSome {tsMs : Nat} (row : (tables.playerTl.get (pid, tsMs)).isSome) :
    ∃ entry, tables.latest pid = some entry := by
  obtain ⟨value, here⟩ := Option.isSome_iff_exists.mp row
  have inside : ((pid, tsMs), value) ∈ tables.timeline pid fun _ => true :=
    mem_timeline.mpr ⟨here, rfl, rfl⟩
  cases found : tables.latest pid with
  | some entry => exact ⟨entry, rfl⟩
  | none =>
      rw [Tables.latest, List.getLast?_eq_none_iff] at found
      rw [found] at inside
      cases inside

/-- Who is queued again is the player. -/
theorem requeued_pid {item : String × Nat × FrontierTask}
    (found : requeued platforms ram tables pid = some item) : item.2.1 = pid := by
  simp only [requeued, Option.bind_eq_bind, Option.bind_eq_some_iff] at found
  obtain ⟨_, _, _, _, _, _, same⟩ := found
  cases same
  rfl

/-- The platform that a stranded member is put on. -/
theorem requeued_platform {item : String × Nat × FrontierTask}
    (found : requeued platforms ram tables pid = some item) :
    ∃ entry, tables.latest pid = some entry ∧
      platforms.find? (fun platform => (tables.progress.get (platform, entry.2.1)).isSome) =
        some item.1 := by
  simp only [requeued, Option.bind_eq_bind, Option.bind_eq_some_iff] at found
  obtain ⟨_, _, entry, latest, platform, first, same⟩ := found
  cases same
  exact ⟨entry, latest, first⟩

/-- Who can be placed is queued again. -/
theorem requeued_isSome {puuid platform : String} {entry : TlEntry}
    (known : ram.players.get puuid = some pid) (latest : tables.latest pid = some entry)
    (enabled : platform ∈ platforms)
    (counted : (tables.progress.get (platform, entry.2.1)).isSome) :
    ∃ item, requeued platforms ram tables pid = some item := by
  have someone : ∃ player,
    ram.players.entries.find? (fun entry => entry.2 = pid) = some player := by
    rw [← Option.isSome_iff_exists, List.find?_isSome]
    exact ⟨(puuid, pid), Table.get_eq_some.mp known, decide_eq_true rfl⟩
  have first : ∃ found, platforms.find?
      (fun platform => (tables.progress.get (platform, entry.2.1)).isSome) = some found := by
    rw [← Option.isSome_iff_exists, List.find?_isSome]
    exact ⟨platform, enabled, counted⟩
  obtain ⟨player, someone⟩ := someone
  obtain ⟨found, first⟩ := first
  refine ⟨(found, pid, ⟨player.1, 0⟩), ?_⟩
  simp only [requeued, Option.bind_eq_bind, Option.bind_eq_some_iff]
  exact ⟨player, someone, entry, latest, found, first, rfl⟩

end Requeued

/-! ## What the pushes do to each player -/

/-- The push of one item, on its platform. -/
def Tables.requeue (nowMs : Nat) (tables : Tables) (item : String × Nat × FrontierTask) : Tables :=
  tables.pushed item.1 bucketPriority nowMs item.2

/-- These items come in, unless the player waits already, and nobody else's rows change. -/
structure Requeues (nowMs : Nat) (queue : List (String × Nat × FrontierTask))
    (before after : Tables) : Prop where
  added : ∀ item ∈ queue, before.frontierIdx.get item.2.1 = none →
    Waits after item.2.1 ⟨item.1, bucketPriority, nowMs⟩ item.2.2
  kept : ∀ pid, before.frontierIdx.get pid ≠ none ∨ (∀ item ∈ queue, item.2.1 ≠ pid) →
    SameRows before after pid

section Requeues

variable (nowMs : Nat) {tables : Tables}

/-- The same rows keep a waiting task. -/
theorem SameRows.waits {first second : Tables} {pid : Nat} {key : FrontierKey} {task : FrontierTask}
    (same : SameRows first second pid) (waits : Waits first pid key task) :
    Waits second pid key task :=
  ⟨same.1.trans waits.1, fun platform bucket dueMs =>
    (same.2 platform bucket dueMs).trans (waits.2 platform bucket dueMs)⟩

/-- Two changes, one after the other, that keep the rows of a player. -/
theorem SameRows.trans {first second third : Tables} {pid : Nat} (one : SameRows first second pid)
    (two : SameRows second third pid) : SameRows first third pid :=
  ⟨two.1.trans one.1, fun platform bucket dueMs =>
    (two.2 platform bucket dueMs).trans (one.2 platform bucket dueMs)⟩

/-- Pushing one item queues its player, unless the player waits already. -/
theorem Tables.Orderly.requeue (orderly : tables.Orderly) (item : String × Nat × FrontierTask) :
    Requeues nowMs [item] tables (tables.requeue nowMs item) := by
  unfold Tables.requeue Tables.pushed
  rw [orderly.queued_bucket]
  split
  · next waits =>
      refine ⟨fun other inside absent => ?_, fun _ _ => ⟨rfl, fun _ _ _ => rfl⟩⟩
      rw [List.mem_singleton.mp inside] at absent
      rw [absent] at waits
      cases waits
  · next absent =>
      have placed := orderly.paired.move item.2.1 ⟨item.1, bucketPriority, nowMs⟩ item.2.2
      refine ⟨fun other inside _ => ?_, fun pid apart => placed.others pid ?_⟩
      · rw [List.mem_singleton.mp inside]
        exact ⟨placed.index, placed.tasks⟩
      · rintro rfl
        rcases apart with waits | outside
        · exact absent (Option.isSome_iff_ne_none.mpr waits)
        · exact outside item (List.mem_singleton_self _) rfl

/-- The pushes of a queue in which each player has one item. -/
theorem Tables.Orderly.requeueAll (orderly : tables.Orderly)
    (queue : List (String × Nat × FrontierTask))
    (single : ∀ first ∈ queue, ∀ second ∈ queue, first.2.1 = second.2.1 → first = second) :
    Requeues nowMs queue tables (queue.foldl (Tables.requeue nowMs) tables) := by
  induction queue generalizing tables with
  | nil => exact ⟨nofun, fun _ _ => ⟨rfl, fun _ _ _ => rfl⟩⟩
  | cons item queue ih =>
      have first := orderly.requeue nowMs item
      have later : (tables.requeue nowMs item).Orderly := (orderly.pushed item.1 nowMs item.2).1
      have rest := ih later fun one there two there' =>
        single one (List.mem_cons_of_mem _ there) two (List.mem_cons_of_mem _ there')
      rw [List.foldl_cons]
      refine ⟨fun other inside absent => ?_, fun pid apart => ?_⟩
      · by_cases same : other.2.1 = item.2.1
        · rw [single other inside item List.mem_cons_self same] at absent ⊢
          have waits := first.added item (List.mem_singleton_self _) absent
          exact (rest.kept _ (.inl (by rw [waits.1]; nofun))).waits waits
        · have later : other ∈ queue := (List.mem_cons.mp inside).resolve_left fun equal =>
            same (by rw [equal])
          have before := first.kept other.2.1 (.inr fun one there equal => same (by
            rw [← equal, List.mem_singleton.mp there]))
          exact rest.added other later (before.1.trans absent)
      · have before := first.kept pid (apart.imp_right fun outside one there => by
          rw [List.mem_singleton.mp there]
          exact outside item List.mem_cons_self)
        refine before.trans (rest.kept pid (apart.imp (fun waits => ?_) fun outside one there =>
          outside one (List.mem_cons_of_mem _ there)))
        rw [before.1]
        exact waits

/-- Pushing platform by platform queues the items in that order. -/
theorem pushStranded_requeues (items : List (String × Nat × FrontierTask))
    (platforms : List String) (state : State) :
    ∃ after, Ends (pushStranded nowMs items platforms) state () after ∧
      after.tables = (platforms.flatMap fun platform =>
        items.filter fun item => item.1 = platform).foldl (Tables.requeue nowMs) state.tables := by
  induction platforms generalizing state with
  | nil => exact ⟨state, rfl, rfl⟩
  | cons platform platforms ih =>
      obtain ⟨working, pushed⟩ := frontierPushBatch_ends platform bucketPriority nowMs
        ((items.filter fun item => item.1 = platform).map Prod.snd) state
      obtain ⟨after, rest, tables⟩ := ih _
      refine ⟨after, pushed.bind rest, ?_⟩
      rw [tables, List.flatMap_cons, List.foldl_append, List.foldl_map]
      congr 1
      refine List.foldl_ext _ _ _ fun current item inside => ?_
      rw [Tables.requeue, decide_eq_true_eq.mp (List.mem_filter.mp inside).2]

/-- **The reconciliation** queues each stranded player that has a platform, and leaves the rows of
every other as they are. -/
theorem frontierReconcile_rows {state next : State} {platforms : List String} {count : Nat}
    (orderly : state.tables.Orderly)
    (ends : Ends (frontierReconcile platforms nowMs) state count next) (pid : Nat) :
    (∀ item, pid ∈ state.tables.stranded →
      requeued platforms state.ram state.tables pid = some item →
        Waits next.tables pid ⟨item.1, bucketPriority, nowMs⟩ item.2.2) ∧
      (pid ∉ state.tables.stranded ∨ requeued platforms state.ram state.tables pid = none →
        SameRows state.tables next.tables pid) := by
  by_cases none : state.tables.stranded.isEmpty
  · rw [(ends.unique (frontierReconcile_idle none platforms nowMs)).2]
    refine ⟨fun item inside => ?_, fun _ => ⟨rfl, fun _ _ _ => rfl⟩⟩
    rw [List.isEmpty_iff.mp none] at inside
    cases inside
  · let items := state.tables.stranded.filterMap (requeued platforms state.ram state.tables)
    obtain ⟨after, pushed, tables⟩ := pushStranded_requeues nowMs items platforms state
    obtain ⟨-, rfl⟩ := ends.unique (frontierReconcile_pushed none pushed)
    have inside : ∀ item, item ∈ (platforms.flatMap fun platform =>
          items.filter fun item => item.1 = platform) ↔
        item.2.1 ∈ state.tables.stranded ∧
          requeued platforms state.ram state.tables item.2.1 = some item := by
      intro item
      rw [List.mem_flatMap]
      constructor
      · rintro ⟨_, -, there⟩
        obtain ⟨pid, stranded, found⟩ := List.mem_filterMap.mp (List.mem_of_mem_filter there)
        rw [requeued_pid found]
        exact ⟨stranded, found⟩
      · rintro ⟨stranded, found⟩
        obtain ⟨_, -, first⟩ := requeued_platform found
        exact ⟨item.1, List.mem_of_find?_eq_some first, List.mem_filter.mpr
          ⟨List.mem_filterMap.mpr ⟨_, stranded, found⟩, decide_eq_true rfl⟩⟩
    have requeues := orderly.requeueAll nowMs _ fun one there two there' same => by
      have found := ((inside one).mp there).2
      rw [same, ((inside two).mp there').2, Option.some.injEq] at found
      exact found.symm
    rw [tables]
    refine ⟨fun item stranded found => ?_, fun apart => requeues.kept pid ?_⟩
    · have own := requeued_pid found
      subst own
      exact requeues.added item ((inside item).mpr ⟨stranded, found⟩) (mem_stranded.mp stranded).2
    · refine .inr fun item there => ?_
      rintro rfl
      obtain ⟨stranded, found⟩ := (inside item).mp there
      rcases apart with outside | lost
      · exact outside stranded
      · rw [lost] at found
        cases found

end Requeues

/-! ## What the rows come from -/

/-- The match is in the tables, and the player has this slot of it. -/
structure Match.Entered (given : Match) (tables : Tables) (slot pid : Nat) : Prop where
  real : given.real = true
  counted : (tables.progress.get given.key).isSome
  plays : given.Plays tables.players slot pid

/-- Cohort members are players, adopted members have a row in the timeline, and every row is that
of one of these calls, on an enabled platform. -/
structure Founded (calls : List Match) (platforms : List String) (tables : Tables) : Prop where
  named : ∀ pid, (tables.cohort.get pid).isSome → ∃ puuid, tables.players.get puuid = some pid
  adopted : ∀ pid time, tables.cohort.get pid = some (time, cohortSrcAdopted) →
    ∃ tsMs, (tables.playerTl.get (pid, tsMs)).isSome
  stored : ∀ pid tsMs gameId slot, tables.playerTl.get (pid, tsMs) = some (gameId, slot) →
    ∃ given ∈ calls, given.record.platform ∈ platforms ∧ given.tsMs = tsMs ∧
      given.record.gameId = gameId ∧ given.Entered tables slot pid

/-- Players, games and rows stay, and members come in with what a member has. -/
structure Grown (calls : List Match) (platforms : List String) (before after : Tables) : Prop where
  players : ∀ puuid pid, before.players.get puuid = some pid → after.players.get puuid = some pid
  progress : ∀ key, (before.progress.get key).isSome → (after.progress.get key).isSome
  rows : ∀ key, (before.playerTl.get key).isSome → (after.playerTl.get key).isSome
  cohort : ∀ pid row, after.cohort.get pid = some row → before.cohort.get pid = some row ∨
    (∃ puuid, after.players.get puuid = some pid) ∧
      (row.2 = cohortSrcAdopted → ∃ tsMs, (after.playerTl.get (pid, tsMs)).isSome)
  timeline : ∀ pid tsMs gameId slot, after.playerTl.get (pid, tsMs) = some (gameId, slot) →
    before.playerTl.get (pid, tsMs) = some (gameId, slot) ∨
    ∃ given ∈ calls, given.record.platform ∈ platforms ∧ given.tsMs = tsMs ∧
      given.record.gameId = gameId ∧ given.Entered after slot pid

section Founded

variable {calls : List Match} {platforms : List String} {before after : Tables}

/-- Empty tables are founded on anything. -/
theorem Founded.empty : Founded calls platforms .empty := ⟨nofun, nofun, nofun⟩

/-- Tables that grow stay founded. -/
theorem Founded.grow (founded : Founded calls platforms before)
    (grown : Grown calls platforms before after) : Founded calls platforms after where
  named pid member := by
    obtain ⟨row, here⟩ := Option.isSome_iff_exists.mp member
    rcases grown.cohort pid row here with old | ⟨someone, -⟩
    · obtain ⟨puuid, known⟩ := founded.named pid (Option.isSome_iff_exists.mpr ⟨row, old⟩)
      exact ⟨puuid, grown.players puuid pid known⟩
    · exact someone
  adopted pid time here := by
    rcases grown.cohort pid _ here with old | ⟨-, adopted⟩
    · obtain ⟨tsMs, row⟩ := founded.adopted pid time old
      exact ⟨tsMs, grown.rows _ row⟩
    · exact adopted rfl
  stored pid tsMs gameId slot row := by
    rcases grown.timeline pid tsMs gameId slot row with old | new
    · obtain ⟨given, inside, enabled, time, game, real, counted, puuid, takes, known⟩ :=
        founded.stored pid tsMs gameId slot old
      exact ⟨given, inside, enabled, time, game, real, grown.progress _ counted, puuid, takes,
        grown.players puuid pid known⟩
    · exact new

/-- What the tables say of members and games is the same. -/
theorem Founded.congr (founded : Founded calls platforms before)
    (players : after.players = before.players) (cohort : after.cohort = before.cohort)
    (playerTl : after.playerTl = before.playerTl) (progress : after.progress = before.progress) :
    Founded calls platforms after := by
  refine founded.grow ⟨?_, ?_, ?_, ?_, ?_⟩
  · rw [players]
    exact fun _ _ here => here
  · rw [progress]
    exact fun _ here => here
  · rw [playerTl]
    exact fun _ here => here
  · rw [cohort]
    exact fun _ _ here => .inl here
  · rw [playerTl]
    exact fun _ _ _ _ here => .inl here

/-- Tables with more rows have grown. -/
theorem Grown.of_rows (players : ∀ puuid pid, before.players.get puuid = some pid →
      after.players.get puuid = some pid)
    (cohort : after.cohort = before.cohort) (playerTl : after.playerTl = before.playerTl)
    (progress : ∀ key, (before.progress.get key).isSome → (after.progress.get key).isSome) :
    Grown calls platforms before after := by
  refine ⟨players, progress, ?_, ?_, ?_⟩
  · rw [playerTl]
    exact fun _ here => here
  · rw [cohort]
    exact fun _ _ here => .inl here
  · rw [playerTl]
    exact fun _ _ _ _ here => .inl here

end Founded

/-! ## Calls -/

section Calls

variable {calls : List Match} {platforms : List String} {state : State}

/-- New ids keep the tables founded. -/
theorem Founded.assign (founded : Founded calls platforms state.tables)
    (same : SamePlayers state.ram state.tables.players) (puuids : List String) :
    Founded calls platforms
      { state.tables with
        players := addPlayers state.tables.players (state.ram.assign puuids).2.2 } :=
  founded.grow (.of_rows (fun _ _ known => same.keeps puuids known) rfl rfl fun _ here => here)

/-- A row of the cohort is from before, or of a new member. -/
theorem get_enrolAll {nowMs source pid : Nat} {row : Nat × Nat} (new : List Nat)
    {tables : Tables} (here : (enrolAll nowMs source new tables).cohort.get pid = some row) :
    tables.cohort.get pid = some row ∨ pid ∈ new ∧ row = (nowMs, source) := by
  induction new generalizing tables with
  | nil => exact .inl here
  | cons first new ih =>
      rcases ih here with old | ⟨later, same⟩
      · simp only [Table.get_insert] at old
        split at old
        · next same =>
            cases old
            exact .inr ⟨same ▸ List.mem_cons_self, rfl⟩
        · exact .inl old
      · exact .inr ⟨List.mem_cons_of_mem _ later, same⟩

/-- Members from a league or a ladder page keep the tables founded without any row. -/
theorem Founded.enrolled {tables : Tables} (founded : Founded calls platforms tables)
    {source : Nat} (listed : source ≠ cohortSrcAdopted) (nowMs : Nat) {new : List Nat}
    (known : ∀ pid ∈ new, ∃ puuid, tables.players.get puuid = some pid) :
    Founded calls platforms (enrolAll nowMs source new tables) := by
  obtain ⟨cohort, outsider, rest⟩ := enrolAll_rest nowMs source new tables
  have rows : ∀ {pid row}, (enrolAll nowMs source new tables).cohort.get pid = some row →
      tables.cohort.get pid = some row ∨ pid ∈ new ∧ row = (nowMs, source) := get_enrolAll new
  rw [rest] at rows ⊢
  refine founded.grow ⟨fun _ _ here => here, fun _ here => here, fun _ here => here,
    fun pid row here => ?_, fun _ _ _ _ here => .inl here⟩
  rcases rows here with old | ⟨inside, same⟩
  · exact .inl old
  · exact .inr ⟨known pid inside, fun adopted => (listed (by rw [← adopted, same])).elim⟩

/-- A row of the cohort is from before, or of an adopted player. -/
theorem sightAll_rows {tsMs : Nat} {growthPaused : Bool} {pid : Nat} {row : Nat × Nat}
    (pids : List Nat) {found : Ram × Tables}
    (here : (sightAll tsMs growthPaused pids found).2.cohort.get pid = some row) :
    found.2.cohort.get pid = some row ∨ pid ∈ pids := by
  induction pids generalizing found with
  | nil => exact .inl here
  | cons first pids ih =>
      rcases ih here with old | later
      · unfold sight at old
        split at old
        · exact .inl old
        · simp only at old
          split at old
          · rw [Table.get_insert] at old
            split at old
            · next same => exact .inr (same ▸ List.mem_cons_self)
            · exact .inl old
          · exact .inl old
      · exact .inr (List.mem_cons_of_mem _ later)

/-- A row of the timeline is an old one, or that of a player of the match. -/
theorem enterTimeline_rows {gameId : UInt64} {tsMs : Nat} {key : Nat × Nat} {value : UInt64 × Nat}
    (pids : List Nat) {slot : Nat} {timeline : Table (Nat × Nat) (UInt64 × Nat)}
    (here : (enterTimeline gameId tsMs slot pids timeline).get key = some value) :
    timeline.get key = some value ∨
      ∃ index, pids[index]? = some key.1 ∧ key.2 = tsMs ∧ value = (gameId, slot + index) := by
  induction pids generalizing slot timeline with
  | nil => exact .inl here
  | cons pid pids ih =>
      rcases ih here with old | ⟨index, takes, time, same⟩
      · rw [Table.get_insert] at old
        split at old
        · next own =>
            cases old
            exact .inr ⟨0, by rw [own]; rfl, by rw [own], rfl⟩
        · exact .inl old
      · exact .inr ⟨index + 1, takes, time, by rw [same, Nat.add_assoc, Nat.add_comm 1]⟩

/-- A row of the timeline stays, or is written over. -/
theorem enterTimeline_keeps {gameId : UInt64} {tsMs : Nat} {key : Nat × Nat} (pids : List Nat)
    {slot : Nat} {timeline : Table (Nat × Nat) (UInt64 × Nat)}
    (here : (timeline.get key).isSome ∨ key.2 = tsMs ∧ key.1 ∈ pids) :
    ((enterTimeline gameId tsMs slot pids timeline).get key).isSome := by
  induction pids generalizing slot timeline with
  | nil => exact here.resolve_right fun inside => nomatch inside.2
  | cons pid pids ih =>
      apply ih
      rw [Table.get_insert]
      split
      · exact .inl rfl
      · next other =>
          refine here.imp_right fun inside =>
            ⟨inside.1, (List.mem_cons.mp inside.2).resolve_left ?_⟩
          exact fun own => other (Prod.ext own inside.1)

/-- The rows of a new game. -/
structure Match.Committed (given : Match) (state : State) (after : Tables) : Prop where
  players : after.players =
    addPlayers state.tables.players (state.ram.assign given.puuids).2.2
  cohort : after.cohort = (given.before state).cohort
  playerTl : after.playerTl =
    enterTimeline given.record.gameId given.tsMs 0 (given.pids state.ram) state.tables.playerTl
  progress : ∀ key, (after.progress.get key).isSome =
    (decide (key = given.key) || (state.tables.progress.get key).isSome)

/-- A match that is new and no remake has rows for its players. -/
theorem Match.committed_rows {given : Match} (real : given.real = true)
    (new : state.tables.progress.get given.key = none) :
    given.Committed state (given.committed state).tables := by
  have alike := sightAll_alike given.tsMs given.growthPaused
    ((given.entered state).ram, (given.entered state).working) (given.pids state.ram)
  have sighted : (given.before state).playerTl = state.tables.playerTl := alike.timeline
  have whole : (given.committed state).tables =
      ((given.sighted (given.pids state.ram) (given.entered state)).withMatch given.record.platform
        given.record.gameId given.tsMs (given.pids state.ram)).working := by
    rw [← inTxn_new real new]
    rfl
  obtain ⟨-, -, players, playerTl, progress⟩ := withValid_alike
    { given.sighted (given.pids state.ram) (given.entered state) with
      working := ((given.before state).tracked given.record.platform given.record.gameId given.tsMs
        (given.pids state.ram)).1 } given.record.platform
    ((given.before state).tracked given.record.platform given.record.gameId given.tsMs
      (given.pids state.ram)).2
  rw [whole]
  refine ⟨players.trans alike.rows,
    (withMatch_rest _ _ _ _ _).2.2.1, playerTl.trans ?_, fun key => ?_⟩
  · show enterTimeline _ _ _ _ (given.before state).playerTl = _
    rw [sighted]
  · have keys := tracked_keys (given.before state) given.record.platform given.record.gameId
      given.tsMs (given.pids state.ram) key
    rw [before_progress] at keys
    exact (congrArg (fun table => (Table.get table key).isSome) progress).trans keys

/-- A new game of a call grows the tables. -/
theorem Match.Committed.grown {given : Match} {after : Tables}
    (committed : given.Committed state after)
    (inside : given ∈ calls) (enabled : given.record.platform ∈ platforms)
    (same : SamePlayers state.ram state.tables.players) (real : given.real = true) :
    Grown calls platforms state.tables after := by
  obtain ⟨players, cohort, playerTl, progress⟩ := committed
  have someone : ∀ {slot pid : Nat}, (given.pids state.ram)[slot]? = some pid →
      ∃ puuid, given.puuids[slot]? = some puuid ∧ after.players.get puuid = some pid := by
    intro slot pid takes
    rw [players]
    exact same.assigned takes
  refine ⟨fun puuid pid known => ?_, fun key stored => ?_, fun key row => ?_,
    fun pid row here => ?_,
    fun pid tsMs gameId slot here => ?_⟩
  · rw [players]
    exact same.keeps given.puuids known
  · rw [progress, stored, Bool.or_true]
  · rw [playerTl]
    exact enterTimeline_keeps _ (.inl row)
  · rw [cohort] at here
    refine (sightAll_rows (given.pids state.ram) here).imp_right fun plays => ?_
    obtain ⟨slot, takes⟩ := List.mem_iff_getElem?.mp plays
    obtain ⟨puuid, -, known⟩ := someone takes
    refine ⟨⟨puuid, known⟩, fun _ => ⟨given.tsMs, ?_⟩⟩
    rw [playerTl]
    exact enterTimeline_keeps _ (.inr ⟨rfl, plays⟩)
  · rw [playerTl] at here
    refine (enterTimeline_rows (given.pids state.ram) here).imp_right fun new => ?_
    obtain ⟨index, takes, time, same⟩ := new
    obtain ⟨game, own⟩ := Prod.mk.inj same
    rw [Nat.zero_add] at own
    subst own
    refine ⟨given, inside, enabled, time.symm, game.symm, real, ?_, someone takes⟩
    rw [progress, decide_eq_true rfl, Bool.true_or]

/-- **The transaction of a match** keeps the tables founded. -/
theorem Founded.committed (founded : Founded calls platforms state.tables)
    (same : SamePlayers state.ram state.tables.players) {given : Match} (inside : given ∈ calls)
    (enabled : given.record.platform ∈ platforms) :
    Founded calls platforms (given.committed state).tables := by
  have whole : (given.committed state).tables = (given.inTxn state).working := rfl
  have assigned := founded.assign same given.puuids
  cases new : state.tables.progress.get given.key with
  | some progress =>
      rw [whole, Match.inTxn, Match.effects, new]
      simp only [Option.isSome_some, Bool.not_true, Bool.and_false, Bool.false_eq_true, ↓reduceIte]
      exact assigned
  | none =>
      cases real : given.real with
      | true => exact founded.grow ((Match.committed_rows real new).grown inside enabled same real)
      | false =>
          have kind : isRemake given.record = true := by simpa [Match.real] using real
          rw [whole, Match.inTxn, Match.effects, new, kind]
          simp only [Option.isSome_none, Bool.not_false, Bool.and_true, ↓reduceIte]
          refine assigned.grow (.of_rows (fun _ _ here => here) rfl rfl fun key stored => ?_)
          rw [Table.get_insert]
          split
          · rfl
          · exact stored

end Calls

/-! ## What the reconciliation should do -/

/-- The match is in the tables, remake or not, and the player plays it. -/
structure Match.Of (given : Match) (tables : Tables) (pid : Nat) : Prop where
  counted : (tables.progress.get given.key).isSome
  plays : ∃ slot, given.Plays tables.players slot pid

/-- A match of the player that none of its stored matches comes after, remakes included. -/
structure MostRecent (calls : List Match) (tables : Tables) (pid : Nat) (given : Match) : Prop where
  stored : given ∈ calls
  own : given.Of tables pid
  newest : ∀ other ∈ calls, other.Of tables pid → other.tsMs ≤ given.tsMs

/-- Adopted members and those from the ladder wait once, new entries are on the platform of the
player's most recent game, and old entries are as they were. -/
structure Reconciled (calls : List Match) (before after : Tables) : Prop where
  waits : ∀ pid time source, after.cohort.get pid = some (time, source) →
    source = cohortSrcAdopted ∨ source = cohortSrcLadder →
      ∃! key : String × Nat × Nat, (after.frontier.get (key.1, key.2.1, key.2.2, pid)).isSome
  created : ∀ platform bucket dueMs pid,
    (after.frontier.get (platform, bucket, dueMs, pid)).isSome →
      before.frontier.get (platform, bucket, dueMs, pid) = none →
        ∃ given, MostRecent calls before pid given ∧ given.record.platform = platform
  kept : ∀ key task, before.frontier.get key = some task → after.frontier.get key = some task

/-- This row of the timeline is the player's latest. -/
structure LatestRow (tables : Tables) (pid tsMs : Nat) (gameId : UInt64) : Prop where
  row : ∃ slot, tables.playerTl.get (pid, tsMs) = some (gameId, slot)
  newest : ∀ other, (tables.playerTl.get (pid, other)).isSome → other ≤ tsMs

/-- Stranded members from the ladder have a row, and the platform of a stranded member's most
recent match is the first one that has a game of the id of its latest row. A remake has no row. -/
structure Recoverable (calls : List Match) (platforms : List String) (tables : Tables) : Prop where
  ladder : ∀ pid time, tables.cohort.get pid = some (time, cohortSrcLadder) →
    tables.frontierIdx.get pid = none → ∃ tsMs, (tables.playerTl.get (pid, tsMs)).isSome
  apart : ∀ pid ∈ tables.stranded, ∀ tsMs gameId, LatestRow tables pid tsMs gameId →
    ∃ given earlier later, MostRecent calls tables pid given ∧
      platforms = earlier ++ given.record.platform :: later ∧
      (tables.progress.get (given.record.platform, gameId)).isSome ∧
      ∀ platform ∈ earlier, tables.progress.get (platform, gameId) = none

section Reconciled

variable {calls : List Match} {platforms : List String} {tables : Tables} {state next : State}
  {pid : Nat}

/-- The latest row is not before any other. -/
theorem latest_newest {entry : TlEntry} (latest : tables.latest pid = some entry) {tsMs : Nat}
    (row : (tables.playerTl.get (pid, tsMs)).isSome) : tsMs ≤ entry.1.2 := by
  obtain ⟨value, here⟩ := Option.isSome_iff_exists.mp row
  have inside : ((pid, tsMs), value) ∈ tables.timeline pid fun _ => true :=
    mem_timeline.mpr ⟨here, rfl, rfl⟩
  obtain ⟨before, split⟩ := List.getLast?_eq_some_iff.mp latest
  have sorted := timeline_sorted tables pid fun _ => true
  rw [split] at inside sorted
  rcases List.mem_append.mp inside with earlier | last
  · exact Nat.le_of_lt ((List.pairwise_append.mp sorted).2.2 _ earlier entry
      (List.mem_singleton_self _))
  · rw [← List.mem_singleton.mp last]

/-- The row that the reconciliation reads. -/
theorem latestRow_latest {entry : TlEntry} (latest : tables.latest pid = some entry) :
    LatestRow tables pid entry.1.2 entry.2.1 := by
  obtain ⟨there, own⟩ := latest_row latest
  refine ⟨⟨entry.2.2, ?_⟩, fun other row => latest_newest latest row⟩
  rw [← own]
  exact there

/-- There is one latest row. -/
theorem LatestRow.latest {tsMs : Nat} {gameId : UInt64} (row : LatestRow tables pid tsMs gameId) :
    ∃ entry, tables.latest pid = some entry ∧ entry.2.1 = gameId := by
  obtain ⟨slot, here⟩ := row.row
  have isSome := Option.isSome_iff_exists.mpr ⟨_, here⟩
  obtain ⟨entry, latest⟩ := latest_isSome isSome
  obtain ⟨there, own⟩ := latest_row latest
  have before := row.newest entry.1.2 (by
    rw [← own]
    exact Option.isSome_iff_exists.mpr ⟨_, there⟩)
  have time : entry.1.2 = tsMs := Nat.le_antisymm before (latest_newest latest isSome)
  have key : entry.1 = (pid, tsMs) := Prod.ext own time
  rw [key, here, Option.some.injEq] at there
  exact ⟨entry, latest, by rw [← there]⟩

/-- A member with a row is put somewhere. -/
theorem Founded.requeued (founded : Founded calls platforms state.tables)
    (same : SamePlayers state.ram state.tables.players)
    (stranded : pid ∈ state.tables.stranded) {tsMs : Nat}
    (row : (state.tables.playerTl.get (pid, tsMs)).isSome) :
    ∃ item, requeued platforms state.ram state.tables pid = some item := by
  obtain ⟨puuid, known⟩ := founded.named pid (mem_stranded.mp stranded).1
  obtain ⟨entry, latest⟩ := latest_isSome row
  obtain ⟨there, own⟩ := latest_row latest
  obtain ⟨⟨player, time⟩, gameId, slot⟩ := entry
  simp only at own
  subst own
  obtain ⟨given, -, enabled, -, rfl, entered⟩ := founded.stored _ _ _ _ there
  exact requeued_isSome ((same puuid).trans known) latest enabled entered.counted

/-- A member who is put somewhere has a row. -/
theorem requeued_row {item : String × Nat × FrontierTask}
    (found : Store.requeued platforms state.ram state.tables pid = some item) :
    ∃ tsMs, (state.tables.playerTl.get (pid, tsMs)).isSome := by
  obtain ⟨entry, latest, -⟩ := requeued_platform found
  obtain ⟨there, own⟩ := latest_row latest
  refine ⟨entry.1.2, Option.isSome_iff_exists.mpr ⟨entry.2, ?_⟩⟩
  rw [← own]
  exact there

/-- A new entry is that of a stranded member. -/
theorem created_requeued {nowMs count : Nat} (orderly : state.tables.Orderly)
    (ends : Ends (frontierReconcile platforms nowMs) state count next) {platform : String}
    {bucket dueMs : Nat}
    (new : (next.tables.frontier.get (platform, bucket, dueMs, pid)).isSome)
    (absent : state.tables.frontier.get (platform, bucket, dueMs, pid) = none) :
    ∃ task, pid ∈ state.tables.stranded ∧
      Store.requeued platforms state.ram state.tables pid = some (platform, pid, task) := by
  obtain ⟨added, kept⟩ := frontierReconcile_rows nowMs orderly ends pid
  by_cases stranded : pid ∈ state.tables.stranded
  · cases found : Store.requeued platforms state.ram state.tables pid with
    | none =>
        rw [(kept (.inr found)).2, absent] at new
        cases new
    | some item =>
        have waits := added item stranded found
        rw [waits.2] at new
        split at new
        · next key =>
            obtain ⟨own, -, -⟩ := FrontierKey.mk.inj key
            obtain ⟨_, other, task⟩ := item
            have same := requeued_pid found
            simp only at own same
            exact ⟨task, stranded, by rw [own, same]⟩
        · cases new
  · rw [(kept (.inl stranded)).2, absent] at new
    cases new

/-- A player with an index row has one entry. -/
theorem Tables.Paired.single {key : FrontierKey} (paired : tables.Paired)
    (index : tables.frontierIdx.get pid = some key) :
    ∃! key : String × Nat × Nat,
      (tables.frontier.get (key.1, key.2.1, key.2.2, pid)).isSome := by
  obtain ⟨task, here⟩ := paired.waiting pid key index
  refine ⟨(key.platform, key.bucket, key.dueMs), Option.isSome_iff_exists.mpr ⟨task, here⟩,
    fun other there => ?_⟩
  obtain ⟨task', there⟩ := Option.isSome_iff_exists.mp there
  have own := paired.indexed _ _ _ _ _ there
  rw [index, Option.some.injEq] at own
  rw [own]

/-- **The reconciliation** does what it should on the tables that it can recover, and on no
others. -/
theorem reconciled_iff {nowMs count : Nat} (orderly : state.tables.Orderly)
    (same : SamePlayers state.ram state.tables.players)
    (founded : Founded calls platforms state.tables)
    (ends : Ends (frontierReconcile platforms nowMs) state count next) :
    Reconciled calls state.tables next.tables ↔ Recoverable calls platforms state.tables := by
  obtain ⟨only, orderly', -⟩ := frontierReconcile_pushes orderly ends
  obtain ⟨_, _, rest⟩ := only.tables
  have cohort : next.tables.cohort = state.tables.cohort := by rw [rest]
  constructor
  · intro reconciled
    refine ⟨fun pid time member absent => ?_, fun pid stranded tsMs gameId row => ?_⟩
    · have stranded : pid ∈ state.tables.stranded :=
        mem_stranded.mpr ⟨Option.isSome_iff_exists.mpr ⟨_, member⟩, absent⟩
      obtain ⟨key, here, -⟩ := reconciled.waits pid time _ (by rw [cohort, member]) (.inr rfl)
      have none : state.tables.frontier.get (key.1, key.2.1, key.2.2, pid) = none :=
        orderly.paired.get_eq_none (by rw [absent]; nofun)
      obtain ⟨_, -, found⟩ := created_requeued orderly ends here none
      exact requeued_row found
    · obtain ⟨slot, here⟩ := row.row
      obtain ⟨item, found⟩ :=
        founded.requeued same stranded (Option.isSome_iff_exists.mpr ⟨_, here⟩)
      have waits := (frontierReconcile_rows nowMs orderly ends pid).1 item stranded found
      obtain ⟨given, recent, platform⟩ := reconciled.created item.1 bucketPriority nowMs pid
        (by rw [waits.2, if_pos rfl]; rfl)
        (orderly.paired.get_eq_none (by rw [(mem_stranded.mp stranded).2]; nofun))
      obtain ⟨entry, latest, first⟩ := requeued_platform found
      obtain ⟨other, own, same⟩ := row.latest
      rw [latest, Option.some.injEq] at own
      rw [own, same, ← platform] at first
      obtain ⟨counted, earlier, later, split, none⟩ := List.find?_eq_some_iff_append.mp first
      refine ⟨given, earlier, later, recent, split, counted, fun other inside => ?_⟩
      simpa using none other inside
  · rintro ⟨ladder, apart⟩
    refine ⟨fun pid time source member kind => ?_, fun platform bucket dueMs pid new absent => ?_,
      fun key task here => ?_⟩
    · rw [cohort] at member
      obtain ⟨added, kept⟩ := frontierReconcile_rows nowMs orderly ends pid
      cases index : state.tables.frontierIdx.get pid with
      | some key =>
          have waiting : pid ∉ state.tables.stranded := fun stranded => by
            rw [(mem_stranded.mp stranded).2] at index
            cases index
          exact orderly'.paired.single ((kept (.inl waiting)).1.trans index)
      | none =>
          have stranded : pid ∈ state.tables.stranded :=
            mem_stranded.mpr ⟨Option.isSome_iff_exists.mpr ⟨_, member⟩, index⟩
          have row : ∃ tsMs, (state.tables.playerTl.get (pid, tsMs)).isSome := by
            rcases kind with rfl | rfl
            · exact founded.adopted pid time member
            · exact ladder pid time member index
          obtain ⟨tsMs, row⟩ := row
          obtain ⟨item, found⟩ := founded.requeued same stranded row
          exact orderly'.paired.single (added item stranded found).1
    · obtain ⟨task, stranded, found⟩ := created_requeued orderly ends new absent
      obtain ⟨entry, latest, first⟩ := requeued_platform found
      obtain ⟨given, earlier, later, recent, split, counted, none⟩ :=
        apart pid stranded _ _ (latestRow_latest latest)
      have here : platforms.find? (fun platform =>
          (state.tables.progress.get (platform, entry.2.1)).isSome) =
            some given.record.platform :=
        List.find?_eq_some_iff_append.mpr ⟨counted, earlier, later, split,
          fun other inside => by simp [none other inside]⟩
      rw [here, Option.some.injEq] at first
      exact ⟨given, recent, first⟩
    · obtain ⟨platform, bucket, dueMs, pid⟩ := key
      have index := orderly.paired.indexed _ _ _ _ _ here
      have waiting : pid ∉ state.tables.stranded := fun stranded => by
        rw [(mem_stranded.mp stranded).2] at index
        cases index
      rw [((frontierReconcile_rows nowMs orderly ends pid).2 (.inl waiting)).2]
      exact here

end Reconciled

end LolCrawler.Store
