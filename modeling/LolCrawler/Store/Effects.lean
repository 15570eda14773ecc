import LolCrawler.Store.Players
import LolCrawler.Store.Transactions

/-! # What the transaction of `store_match` does

Each part of the transaction is described once, however it is cut: what it does to
the copy of the tables and to the memory when it ends, and what the memory holds
when it stops early. Nothing else changes before the commit (`Outside`).
-/

namespace LolCrawler.Store

open Foundation

/-- Only the memory and the copy of the tables differ. -/
structure Outside (before after : State) : Prop where
  tables : after.tables = before.tables
  durable : after.durable = before.durable
  segments : after.segments = before.segments
  stored : after.stored = before.stored

/-- Nothing has changed outside. -/
theorem Outside.refl (state : State) : Outside state state := ⟨rfl, rfl, rfl, rfl⟩

/-- Two changes, one after the other, with nothing changed outside. -/
theorem Outside.trans {first second third : State} (one : Outside first second)
    (two : Outside second third) : Outside first third :=
  ⟨two.tables.trans one.tables, two.durable.trans one.durable, two.segments.trans one.segments,
    two.stored.trans one.stored⟩

/-- A call that stopped in its transaction: nothing outside has changed, and if an operation
failed, then this is what it was and what the memory holds. -/
structure Stopped (before : State) (ram : Site → Ram → Prop) (halt : Halt Site) (after : State) :
    Prop where
  outside : Outside before after
  failed : ∀ site, halt = .failed site → ram site after.ram

/-- A program that stopped later has stopped, with less said of the memory. -/
theorem Stopped.mono {before between after : State} {ram ram' : Site → Ram → Prop}
    {halt : Halt Site} (stopped : Stopped between ram halt after) (outside : Outside before between)
    (weaker : ∀ site memory, ram site memory → ram' site memory) :
    Stopped before ram' halt after :=
  ⟨outside.trans stopped.outside, fun site here => weaker site _ (stopped.failed site here)⟩

section Rules

variable {α : Type} {state : State} {txn : Txn} {op : TxnOp} {second : Unit → Act α}
  {done : α → State → Prop} {ram : Site → Ram → Prop} {before : State}

/-- An operation that changes nothing stops the transaction, or the rest goes on. -/
theorem meets_touch_bind (outside : Outside before state) (here : ram (.txn txn op) state.ram)
    (rest : Meets (second ()) state done (Stopped before ram)) :
    Meets (touch txn op >>= second) state done (Stopped before ram) := by
  refine Meets.step_bind ⟨outside, nofun⟩ ⟨outside, ?_⟩ rest
  intro site same
  cases same
  exact here

/-- A change of the copy stops the transaction, or the rest goes on with the new copy. -/
theorem meets_change_bind {edit : Tables → Tables} (outside : Outside before state)
    (here : ram (.txn txn op) state.ram)
    (rest : Meets (second ()) { state with working := edit state.working } done
      (Stopped before ram)) :
    Meets (change txn op edit >>= second) state done (Stopped before ram) := by
  refine Meets.step_bind ⟨outside, nofun⟩ ⟨outside, ?_⟩ rest
  intro site same
  cases same
  exact here

/-- A part of a transaction stops it where the part stops. -/
theorem meets_part {program : Act α} {ram' : Site → Ram → Prop} (outside : Outside before state)
    (meets : Meets program state done (Stopped state ram'))
    (weaker : ∀ site memory, ram' site memory → ram site memory) :
    Meets program state done (Stopped before ram) :=
  meets.mono (fun _ _ here => here) fun _ _ stopped => stopped.mono outside weaker

/-- A part of a transaction stops it, or the rest goes on from the part's end. -/
theorem meets_part_bind {β : Type} {first : Act β} {rest : β → Act α} {mid : β → State → Prop}
    {ram' : Site → Ram → Prop} (outside : Outside before state)
    (meets : Meets first state mid (Stopped state ram'))
    (weaker : ∀ site memory, ram' site memory → ram site memory)
    (right : ∀ value between, mid value between →
      Meets (rest value) between done (Stopped before ram)) :
    Meets (first >>= rest) state done (Stopped before ram) :=
  (meets_part outside meets weaker).bind right

/-- A change of the memory, and what follows. -/
theorem meets_setRam_bind {edit : Ram → Ram}
    (rest : Meets (second ()) { state with ram := edit state.ram } done (Stopped before ram)) :
    Meets (setRam edit >>= second) state done (Stopped before ram) :=
  Meets.modify_bind rest

end Rules

/-! ## Players -/

/-- The state in which these players have ids, within the transaction. -/
def State.withPlayers (state : State) (puuids : List String) : State :=
  { state with
    ram := (state.ram.assign puuids).1
    working :=
      { state.working with
        players := addPlayers state.working.players (state.ram.assign puuids).2.2 } }

/-- The memory when a player's row could not be written. -/
def PlayerFailed (puuids : List String) (before : Ram) (site : Site) (ram : Ram) : Prop :=
  site = .txn .storeMatch (.insert .players) ∧ Keeps before ram ∧ Ahead puuids before ram

/-- The players of a match get their ids, or the new ones before the failure are in the memory. -/
theorem matchPlayerIds_meets (puuids : List String) (before : State) :
    Meets (matchPlayerIds puuids) before
      (fun ids after => ids = (before.ram.assign puuids).2.1 ∧ after = before.withPlayers puuids)
      (Stopped before (PlayerFailed puuids before.ram)) := by
  induction puuids generalizing before with
  | nil => exact Meets.pure ⟨rfl, rfl⟩
  | cons puuid puuids ih =>
      cases found : before.ram.players.get puuid with
      | some id =>
          have first : Meets (matchPlayerId puuid) before
              (fun id' after => id' = id ∧ after = before)
              (Stopped before (PlayerFailed (puuid :: puuids) before.ram)) := by
            unfold matchPlayerId
            refine Meets.gets_bind ?_
            rw [found]
            exact Meets.pure ⟨rfl, rfl⟩
          refine first.bind fun id' between here => ?_
          rw [here.1, here.2]
          refine meets_part_bind (.refl _) (ih before) ?_ ?_
          · rintro site ram ⟨same, keeps, ahead⟩
            exact ⟨same, keeps, ahead.cons puuid⟩
          · rintro ids after ⟨rfl, rfl⟩
            refine Meets.pure ?_
            rw [State.withPlayers, State.withPlayers, assign_known puuids found]
            exact ⟨rfl, rfl⟩
      | none =>
          have issued : ((before.ram.issue puuid).players.get puuid) = some
            before.ram.nextPlayerId := by
            simp [Ram.issue]
          have first : Meets (matchPlayerId puuid) before
              (fun id after => id = before.ram.nextPlayerId ∧ after = before.withPlayers [puuid])
              (Stopped before (PlayerFailed (puuid :: puuids) before.ram)) := by
            unfold matchPlayerId
            refine Meets.gets_bind ?_
            rw [found]
            refine meets_setRam_bind
              (meets_change_bind ⟨rfl, rfl, rfl, rfl⟩ ?_ (Meets.pure ⟨rfl, ?_⟩))
            · exact ⟨rfl, keeps_issue found, puuid, List.mem_cons_self, found, by simp [issued]⟩
            · rw [State.withPlayers, assign_new [] found]
              rfl
          refine first.bind fun id' between here => ?_
          rw [here.1, here.2]
          have ram : (before.withPlayers [puuid]).ram = before.ram.issue puuid := by
            rw [State.withPlayers, assign_new [] found]
            rfl
          refine meets_part_bind ⟨rfl, rfl, rfl, rfl⟩ (ih (before.withPlayers [puuid])) ?_ ?_
          · rintro site memory ⟨same, keeps, -⟩
            rw [ram] at keeps
            refine ⟨same, fun other id known => keeps other id (keeps_issue found other id known),
              puuid, List.mem_cons_self, found, ?_⟩
            rw [keeps puuid _ issued]
            rfl
          · rintro ids after ⟨rfl, rfl⟩
            refine Meets.pure ?_
            rw [ram]
            rw [State.withPlayers, State.withPlayers, State.withPlayers, assign_new puuids found,
              assign_new [] found]
            exact ⟨rfl, rfl⟩

/-! ## Outsiders -/

/-- One sighting of a player, in memory and in the tables. -/
def sight (tsMs : Nat) (growthPaused : Bool) (found : Ram × Tables) (pid : Nat) : Ram × Tables :=
  if pid ∈ found.1.cohort then found
  else
    let count := (found.1.outsiderSeen.get pid).getD 0 + 1
    if !growthPaused && adoptionThreshold ≤ count then
      ({ found.1 with
          outsiderSeen := found.1.outsiderSeen.remove pid
          cohort := insert pid found.1.cohort },
        { found.2 with
          outsider := found.2.outsider.remove pid
          cohort := found.2.cohort.insert pid (tsMs, cohortSrcAdopted) })
    else
      ({ found.1 with outsiderSeen := found.1.outsiderSeen.insert pid count },
        { found.2 with outsider := found.2.outsider.insert pid count })

/-- The state in which these players have been sighted. -/
def State.withSightings (state : State) (tsMs : Nat) (growthPaused : Bool) (pids : List Nat) :
    State :=
  { state with
    ram := (pids.foldl (sight tsMs growthPaused) (state.ram, state.working)).1
    working := (pids.foldl (sight tsMs growthPaused) (state.ram, state.working)).2 }

/-- A player from outside the cohort could not be counted or adopted. -/
structure SightingFailed (pids : List Nat) (before : Ram) (site : Site) : Prop where
  site : site = .txn .storeMatch (.remove .outsider) ∨ site = .txn .storeMatch (.insert .cohort) ∨
    site = .txn .storeMatch (.insert .outsider)
  outside : ∃ pid ∈ pids, pid ∉ before.cohort

/-- A sighting of one player concerns no other. -/
theorem sight_apart (tsMs : Nat) (growthPaused : Bool) (found : Ram × Tables) {pid other : Nat}
    (different : other ≠ pid) :
    (other ∈ (sight tsMs growthPaused found pid).1.cohort ↔ other ∈ found.1.cohort) ∧
      (sight tsMs growthPaused found pid).1.outsiderSeen.get other =
        found.1.outsiderSeen.get other := by
  unfold sight
  split
  · exact ⟨Iff.rfl, rfl⟩
  · simp only
    split
    · simp [Table.get_remove, different]
    · simp [Table.get_insert, different]

/-- An outsider is counted, or the memory is as it was. -/
theorem countOutsider_meets (tsMs : Nat) (growthPaused : Bool) (pid : Nat) (puuid : String)
    (before : State) :
    Meets (countOutsider tsMs growthPaused pid puuid) before
      (fun _ after => after = before.withSightings tsMs growthPaused [pid])
      (Stopped before fun site _ => SightingFailed [pid] before.ram site) := by
  unfold countOutsider
  refine Meets.gets_bind ?_
  by_cases member : pid ∈ before.ram.cohort
  · rw [if_pos member]
    refine Meets.pure ?_
    simp [State.withSightings, sight, member]
  · have outside : ∃ other ∈ [pid], other ∉ before.ram.cohort :=
      ⟨pid, List.mem_singleton_self pid, member⟩
    rw [if_neg member]
    have after : before.withSightings tsMs growthPaused [pid] =
        { before with
          ram := (sight tsMs growthPaused (before.ram, before.working) pid).1
          working := (sight tsMs growthPaused (before.ram, before.working) pid).2 } := rfl
    rw [after]
    unfold sight
    simp only [if_neg member]
    split
    · exact meets_setRam_bind (meets_change_bind ⟨rfl, rfl, rfl, rfl⟩ ⟨.inl rfl, outside⟩
        (meets_setRam_bind (meets_change_bind ⟨rfl, rfl, rfl, rfl⟩ ⟨.inr (.inl rfl), outside⟩
          (Meets.pure rfl))))
    · exact meets_setRam_bind (meets_change_bind ⟨rfl, rfl, rfl, rfl⟩ ⟨.inr (.inr rfl), outside⟩
        (Meets.pure rfl))

/-- A sighting takes no member away. -/
theorem sight_members (tsMs : Nat) (growthPaused : Bool) (found : Ram × Tables) (pid : Nat) :
    ∀ other ∈ found.1.cohort, other ∈ (sight tsMs growthPaused found pid).1.cohort := by
  intro other here
  unfold sight
  split
  · exact here
  · simp only
    split
    · exact Finset.mem_insert_of_mem here
    · exact here

/-- Outsiders are counted one by one, and a failure leaves those before it in the memory. -/
theorem countOutsiders_meets (tsMs : Nat) (growthPaused : Bool) (players : List (Nat × String))
    (before : State) :
    Meets (countOutsiders tsMs growthPaused players) before
      (fun _ after => after = before.withSightings tsMs growthPaused (players.map Prod.fst))
      (Stopped before fun site _ => SightingFailed (players.map Prod.fst) before.ram site) := by
  induction players generalizing before with
  | nil => exact Meets.pure rfl
  | cons player players ih =>
      obtain ⟨pid, puuid⟩ := player
      refine meets_part_bind (.refl _) (countOutsider_meets tsMs growthPaused pid puuid before)
        (fun site _ failed => ?_) fun adopted between here => ?_
      · obtain ⟨other, inside, outside⟩ := failed.outside
        rw [List.mem_singleton.mp inside] at outside
        exact ⟨failed.site, pid, List.mem_cons_self, outside⟩
      · rw [here]
        refine meets_part_bind ⟨rfl, rfl, rfl, rfl⟩
          (ih (before.withSightings tsMs growthPaused [pid])) (fun site _ failed => ?_)
          fun later after here => ?_
        · obtain ⟨other, inside, outside⟩ := failed.outside
          exact ⟨failed.site, other, List.mem_cons_of_mem _ inside, fun member =>
            outside (sight_members tsMs growthPaused (before.ram, before.working) pid other member)⟩
        · rw [here]
          exact Meets.pure rfl

/-! ## Progress -/

/-- The operations that track progress before any sample is counted. -/
def trackOps : List TxnOp :=
  [.openTable .playerTl, .openTable .progress, .range .playerTl, .next .playerTl, .get .progress,
    .insert .progress, .insert .playerTl]

/-- One of these operations failed, and the memory is as it was. -/
def Quiet (ops : List TxnOp) (before : Ram) (site : Site) (ram : Ram) : Prop :=
  (∃ op ∈ ops, site = .txn .storeMatch op) ∧ ram = before

/-- A failure that leaves the memory as it was. -/
theorem quiet {ops : List TxnOp} {op : TxnOp} (ram : Ram) (inside : op ∈ ops) :
    Quiet ops ram (.txn .storeMatch op) ram :=
  ⟨⟨op, inside, rfl⟩, rfl⟩

/-- No more games are counted back than are required. -/
theorem countBack_meets (earlier : List TlEntry) (count : Nat) (before : State)
    (room : count < historyRequired) :
    Meets (countBack earlier count) before
      (fun found after => found = min historyRequired (count + earlier.length) ∧ after = before)
      (Stopped before (Quiet trackOps before.ram)) := by
  induction earlier generalizing count with
  | nil =>
      refine meets_touch_bind (.refl _) (quiet _ (by decide)) (Meets.pure ⟨?_, rfl⟩)
      rw [List.length_nil]
      omega
  | cons entry earlier ih =>
      refine meets_touch_bind (.refl _) (quiet _ (by decide)) ?_
      split
      · refine Meets.pure ⟨?_, rfl⟩
        rw [List.length_cons]
        omega
      · next more =>
          refine (ih (count + 1) (by omega)).mono (fun found after here => ⟨?_, here.2⟩)
            fun _ _ stopped => stopped
          rw [here.1, List.length_cons, Nat.add_assoc, Nat.add_comm 1]

/-- How many earlier games the players have, up to the number required. -/
def Tables.counts (tables : Tables) (tsMs : Nat) (pids : List Nat) : List Nat :=
  pids.map fun pid =>
    min historyRequired (tables.timeline pid fun ts => ts < tsMs).length

/-- The games before are counted for each player, and nothing changes. -/
theorem predecessors_meets (tsMs : Nat) (pids : List Nat) (before : State) :
    Meets (predecessors tsMs pids) before
      (fun counts after => counts = before.working.counts tsMs pids ∧ after = before)
      (Stopped before (Quiet trackOps before.ram)) := by
  induction pids with
  | nil => exact Meets.pure ⟨rfl, rfl⟩
  | cons pid pids ih =>
      refine meets_touch_bind (.refl _) (quiet _ (by decide)) (Meets.gets_bind ?_)
      refine (countBack_meets _ 0 before (by decide)).bind fun count between here => ?_
      rw [here.2]
      refine ih.bind fun counts after there => ?_
      rw [here.1, there.1, there.2, List.length_reverse, Nat.zero_add]
      exact Meets.pure ⟨rfl, rfl⟩

/-- The timeline with the entries of a match. -/
def enterTimeline (gameId : UInt64) (tsMs : Nat) :
    Nat → List Nat → Table (Nat × Nat) (UInt64 × Nat) → Table (Nat × Nat) (UInt64 × Nat)
  | _, [], timeline => timeline
  | slot, pid :: pids, timeline =>
      enterTimeline gameId tsMs (slot + 1) pids (timeline.insert (pid, tsMs) (gameId, slot))

/-- The rows of the players are written in the open transaction. -/
theorem writeTimeline_meets (gameId : UInt64) (tsMs slot : Nat) (pids : List Nat) (before : State) :
    Meets (writeTimeline gameId tsMs slot pids) before
      (fun _ after => after =
        { before with
          working :=
            { before.working with
              playerTl := enterTimeline gameId tsMs slot pids before.working.playerTl } })
      (Stopped before (Quiet trackOps before.ram)) := by
  induction pids generalizing slot before with
  | nil => exact Meets.pure rfl
  | cons pid pids ih =>
      refine meets_change_bind (.refl _) (quiet _ (by decide)) ?_
      exact meets_part ⟨rfl, rfl, rfl, rfl⟩ (ih (slot + 1) _) fun _ _ here => here

/-- The progress records after one more game before these, and how many became valid. -/
def credit (platform : String) :
    List TlEntry → Table (String × UInt64) (List Nat) × Nat →
      Table (String × UInt64) (List Nat) × Nat
  | [], found => found
  | (_, gameId, slot) :: later, found =>
      match (found.1.get (platform, gameId)).filter fun progress => progress.length = 11 with
      | none => credit platform later found
      | some progress =>
          match bumpSlot progress slot with
          | none => found
          | some (bumped, completes) =>
              credit platform later
                (found.1.insert (platform, gameId) bumped, found.2 + completes.toNat)

section Credit

variable {platform : String} {key : Nat × Nat} {gameId : UInt64} {slot : Nat}
  {later : List TlEntry} {found : Table (String × UInt64) (List Nat) × Nat}
  {progress : List Nat}

/-- The slot counts of a game. -/
def slots (records : Table (String × UInt64) (List Nat)) (platform : String) (gameId : UInt64) :
    Option (List Nat) :=
  (records.get (platform, gameId)).filter fun progress => progress.length = 11

/-- A game without progress is passed over. -/
theorem credit_skip (absent : slots found.1 platform gameId = none) :
    credit platform ((key, gameId, slot) :: later) found = credit platform later found := by
  rw [slots] at absent
  rw [credit, absent]

/-- A slot that is full ends the credits. -/
theorem credit_full (counted : slots found.1 platform gameId = some progress)
    (enough : bumpSlot progress slot = none) :
    credit platform ((key, gameId, slot) :: later) found = found := by
  rw [slots] at counted
  rw [credit, counted]
  simp only [enough]

/-- A slot that has room is credited, and the credits go on. -/
theorem credit_bump {bumped : List Nat} {completes : Bool}
    (counted : slots found.1 platform gameId = some progress)
    (more : bumpSlot progress slot = some (bumped, completes)) :
    credit platform ((key, gameId, slot) :: later) found =
      credit platform later
        (found.1.insert (platform, gameId) bumped, found.2 + completes.toNat) := by
  rw [slots] at counted
  rw [credit, counted]
  simp only [more]

end Credit

/-- The state with these progress records. -/
def State.withProgress (state : State) (progress : Table (String × UInt64) (List Nat)) : State :=
  { state with working := { state.working with progress := progress } }

/-- The later games of a player are credited in the open transaction. -/
theorem creditLater_meets (platform : String) (later : List TlEntry)
    (newlyValid : Nat) (before : State) :
    Meets (creditLater platform later newlyValid) before
      (fun found after =>
        found = (credit platform later (before.working.progress, newlyValid)).2 ∧
        after = before.withProgress (credit platform later (before.working.progress, newlyValid)).1)
      (Stopped before (Quiet trackOps before.ram)) := by
  induction later generalizing newlyValid before with
  | nil => exact meets_touch_bind (.refl _) (quiet _ (by decide)) (Meets.pure ⟨rfl, rfl⟩)
  | cons entry later ih =>
      obtain ⟨key, gameId, slot⟩ := entry
      refine meets_touch_bind (.refl _) (quiet _ (by decide))
        (Meets.ask_bind ⟨.refl _, nofun⟩ ?_ ?_)
      · refine ⟨.refl _, ?_⟩
        rintro site ⟨⟩
        exact quiet _ (by decide)
      · show Meets (match slots before.working.progress platform gameId with
          | none => creditLater platform later newlyValid
          | some progress => _) before _ _
        cases counted : slots before.working.progress platform gameId with
        | none =>
            rw [credit_skip counted]
            exact ih newlyValid before
        | some progress =>
            cases bumped : bumpSlot progress slot with
            | none =>
                rw [credit_full counted bumped]
                simp only [bumped]
                exact Meets.pure ⟨rfl, rfl⟩
            | some found =>
                obtain ⟨bumped', completes⟩ := found
                rw [credit_bump counted bumped]
                simp only [bumped]
                refine meets_change_bind (.refl _) (quiet _ (by decide)) ?_
                exact meets_part ⟨rfl, rfl, rfl, rfl⟩ (ih _ _) fun _ _ here => here

/-- All players of a match credit their later games. -/
def creditAll (platform : String) (later : Nat → List TlEntry)
    (pids : List Nat) (found : Table (String × UInt64) (List Nat) × Nat) :
    Table (String × UInt64) (List Nat) × Nat :=
  pids.foldl (fun found pid => credit platform (later pid) found) found

/-- A player's games after a time. -/
def Tables.later (tables : Tables) (tsMs pid : Nat) : List TlEntry :=
  tables.timeline pid fun ts => (tsMs + 1) % 2 ^ 64 ≤ ts

/-- The later games of all players are credited in the open transaction. -/
theorem creditPlayers_meets (platform : String) (tsMs : Nat) (pids : List Nat) (newlyValid : Nat)
    (before : State) :
    Meets (creditPlayers platform tsMs pids newlyValid) before
      (fun found after =>
        found = (creditAll platform (before.working.later tsMs) pids
          (before.working.progress, newlyValid)).2 ∧
        after = before.withProgress (creditAll platform (before.working.later tsMs) pids
          (before.working.progress, newlyValid)).1)
      (Stopped before (Quiet trackOps before.ram)) := by
  induction pids generalizing newlyValid before with
  | nil => exact Meets.pure ⟨rfl, rfl⟩
  | cons pid pids ih =>
      refine meets_touch_bind (.refl _) (quiet _ (by decide)) (Meets.gets_bind ?_)
      refine (creditLater_meets platform _ newlyValid before).bind fun found between here => ?_
      rw [here.1, here.2]
      exact meets_part ⟨rfl, rfl, rfl, rfl⟩ (ih _ _) fun _ _ here => here

/-- The tables with a new match and the credit for those after it, and how many samples
became valid. -/
def Tables.tracked (tables : Tables) (platform : String) (gameId : UInt64) (tsMs : Nat)
    (pids : List Nat) : Tables × Nat :=
  let progress := newProgress (tables.counts tsMs pids)
  let entered : Tables :=
    { tables with
      progress := tables.progress.insert (platform, gameId) progress
      playerTl := enterTimeline gameId tsMs 0 pids tables.playerTl }
  let credited := creditAll platform (entered.later tsMs) pids
    (entered.progress, (full progress).toNat)
  ({ entered with progress := credited.1 }, credited.2)

/-- The samples that became valid, in memory and in the tables. -/
def State.withValid (state : State) (platform : String) (newlyValid : Nat) : State :=
  if newlyValid = 0 then state
  else
    { state with
      ram := state.ram.addValid platform newlyValid
      working :=
        { state.working with
          validSamples := state.working.validSamples.insert platform
            (((state.ram.addValid platform newlyValid).validSamples.get platform).getD 0) } }

/-- The valid samples are added in the open transaction, and in the memory last. -/
theorem addValidSamples_meets (platform : String) (newlyValid : Nat) (before : State) :
    Meets (addValidSamples platform newlyValid) before
      (fun _ after => after = before.withValid platform newlyValid)
      (Stopped before fun site ram => newlyValid ≠ 0 ∧
        Quiet [.openTable .metadata, .insert .metadata]
        (before.ram.addValid platform newlyValid) site
          ram) := by
  unfold addValidSamples State.withValid
  split
  · exact Meets.pure rfl
  · next some =>
      refine meets_setRam_bind (meets_touch_bind ⟨rfl, rfl, rfl, rfl⟩ ⟨some, quiet _ (by decide)⟩
        (Meets.gets_bind ?_))
      refine Meets.step rfl ⟨⟨rfl, rfl, rfl, rfl⟩, fun _ other => by cases other⟩
        ⟨⟨rfl, rfl, rfl, rfl⟩, fun site failed => ?_⟩
      cases failed
      exact ⟨some, quiet _ (by decide)⟩

/-- The state after a match has been tracked. -/
def State.withMatch (state : State) (platform : String) (gameId : UInt64) (tsMs : Nat)
    (pids : List Nat) : State :=
  { state with working := (state.working.tracked platform gameId tsMs pids).1 }.withValid platform
    (state.working.tracked platform gameId tsMs pids).2

/-- The samples could not be written: they are counted in memory already. -/
def ValidFailed (platform : String) (newlyValid : Nat) (before : Ram) (site : Site) (ram : Ram) :
    Prop :=
  Quiet trackOps before site ram ∨
    newlyValid ≠ 0 ∧ Quiet [.openTable .metadata, .insert .metadata]
      (before.addValid platform newlyValid) site ram

/-- The progress of a match is tracked, or the memory is as it was. -/
theorem trackProgress_meets (platform : String) (gameId : UInt64) (tsMs : Nat) (pids : List Nat)
    (before : State) :
    Meets (trackProgress platform gameId tsMs pids) before
      (fun _ after => after = before.withMatch platform gameId tsMs pids)
      (Stopped before (ValidFailed platform (before.working.tracked platform gameId tsMs pids).2
        before.ram)) := by
  unfold trackProgress
  refine meets_touch_bind (.refl _) (.inl (quiet _ (by decide)))
    (meets_touch_bind (.refl _) (.inl (quiet _ (by decide))) ?_)
  refine meets_part_bind (.refl _) (predecessors_meets tsMs pids before)
    (fun _ _ failed => .inl failed) fun counts between here => ?_
  rw [here.1, here.2]
  refine meets_change_bind (.refl _) (.inl (quiet _ (by decide))) ?_
  refine meets_part_bind ⟨rfl, rfl, rfl, rfl⟩ (writeTimeline_meets gameId tsMs 0 pids _)
    (fun _ _ failed => .inl failed) fun _ between here => ?_
  rw [here]
  refine meets_part_bind ⟨rfl, rfl, rfl, rfl⟩ (creditPlayers_meets platform tsMs pids _ _)
    (fun _ _ failed => .inl failed) fun found between here => ?_
  rw [here.1, here.2]
  exact meets_part ⟨rfl, rfl, rfl, rfl⟩ (addValidSamples_meets platform _ _)
    fun _ _ failed => .inr failed

/-! ## The transaction -/

/-- A match as `store_match` is given it. -/
structure Match where
  record : MatchRecord
  puuids : List String
  tsMs : Nat
  growthPaused : Bool

namespace Match

/-- The key of the progress record. -/
def key (given : Match) : String × UInt64 := (given.record.platform, given.record.gameId)

/-- The ids of the players, new ones included. -/
def pids (given : Match) (ram : Ram) : List Nat := (ram.assign given.puuids).2.1

/-- The state within the transaction once the players have been sighted. -/
def sighted (given : Match) (pids : List Nat) (state : State) : State :=
  state.withSightings given.tsMs given.growthPaused pids

/-- How many samples become valid. -/
def newlyValid (given : Match) (pids : List Nat) (tables : Tables) : Nat :=
  (tables.tracked given.record.platform given.record.gameId given.tsMs pids).2

/-- The state within the transaction, less the players. -/
def effects (given : Match) (alreadyStored : Bool) (pids : List Nat) (state : State) : State :=
  if isRemake given.record && !alreadyStored then
    { state with
      working := { state.working with progress := state.working.progress.insert given.key [] } }
  else if !alreadyStored then
    (given.sighted pids state).withMatch given.record.platform given.record.gameId given.tsMs pids
  else state

/-- The memory when something other than a player's row could not be written. -/
structure EffectsFailed (given : Match) (alreadyStored : Bool) (pids : List Nat) (before : State)
    (site : Site) (ram : Ram) : Prop where
  new : alreadyStored = false
  failed : if isRemake given.record then
      Quiet [.openTable .progress, .insert .progress] before.ram site ram
    else
      Quiet [.openTable .outsider, .openTable .cohort] before.ram site ram ∨
        SightingFailed pids before.ram site ∨
        ValidFailed given.record.platform
          (given.newlyValid pids (given.sighted pids before).working)
          (given.sighted pids before).ram site ram

/-- The effects of a match, or of a part of it before the failure. -/
theorem effects_meets (given : Match) (alreadyStored : Bool) {pids : List Nat} (before : State)
    (length : pids.length = given.puuids.length) :
    Meets (matchEffects given.record given.puuids given.tsMs given.growthPaused alreadyStored pids)
      before (fun _ after => after = given.effects alreadyStored pids before)
      (Stopped before (given.EffectsFailed alreadyStored pids before)) := by
  unfold matchEffects effects
  split
  · next remake =>
      simp only [Bool.and_eq_true, Bool.not_eq_true'] at remake
      have here : ∀ {op}, op ∈ [TxnOp.openTable .progress, .insert .progress] →
          given.EffectsFailed alreadyStored pids before (.txn .storeMatch op) before.ram := by
        intro op inside
        refine ⟨remake.2, ?_⟩
        rw [if_pos remake.1]
        exact quiet _ inside
      exact meets_touch_bind (.refl _) (here (by decide))
        (meets_change_bind (.refl _) (here (by decide)) (Meets.pure rfl))
  · next counts =>
      split
      · next new =>
          rw [Bool.not_eq_true'] at new
          have real : ¬ isRemake given.record = true := by
            intro remake
            simp [remake, new] at counts
          have zipped : (pids.zip given.puuids).map Prod.fst = pids :=
            List.map_fst_zip (Nat.le_of_eq length)
          have here : ∀ {site ram},
              Quiet [.openTable .outsider, .openTable .cohort] before.ram site ram ∨
                SightingFailed pids before.ram site ∨
                ValidFailed given.record.platform
                  (given.newlyValid pids (given.sighted pids before).working)
                  (given.sighted pids before).ram site ram →
                given.EffectsFailed alreadyStored pids before site ram := by
            intro site ram failed
            refine ⟨new, ?_⟩
            rw [if_neg real]
            exact failed
          refine meets_touch_bind (.refl _) (here (.inl (quiet _ (by decide))))
            (meets_touch_bind (.refl _) (here (.inl (quiet _ (by decide)))) ?_)
          refine meets_part_bind (.refl _) (countOutsiders_meets _ _ _ before)
            (fun site ram failed => ?_) fun adopted between sighted => ?_
          · rw [zipped] at failed
            exact here (.inr (.inl failed))
          · rw [sighted, zipped]
            refine meets_part_bind ⟨rfl, rfl, rfl, rfl⟩ (trackProgress_meets _ _ _ _ _)
              (fun site ram failed => here (.inr (.inr failed))) fun _ after tracked => ?_
            rw [tracked]
            exact Meets.pure rfl
      · exact Meets.pure rfl

/-- The state within the transaction once the players have ids. -/
def entered (given : Match) (state : State) : State :=
  State.withPlayers { state with working := state.tables } given.puuids

/-- The state within the transaction, before its commit. -/
def inTxn (given : Match) (state : State) : State :=
  given.effects (state.tables.progress.get given.key).isSome (given.pids state.ram)
    (given.entered state)

/-- The effects of a match change nothing outside. -/
theorem effects_outside (given : Match) (alreadyStored : Bool) (pids : List Nat) (state : State) :
    Outside state (given.effects alreadyStored pids state) := by
  unfold effects
  split
  · exact ⟨rfl, rfl, rfl, rfl⟩
  · split
    · unfold State.withMatch State.withValid
      split
      · exact ⟨rfl, rfl, rfl, rfl⟩
      · exact ⟨rfl, rfl, rfl, rfl⟩
    · exact .refl _

/-- The transaction of a match changes nothing outside before its commit. -/
theorem inTxn_outside (given : Match) (state : State) : Outside state (given.inTxn state) := by
  have entered : Outside state (given.entered state) := ⟨rfl, rfl, rfl, rfl⟩
  exact entered.trans (given.effects_outside _ _ _)

/-- The state after the transaction. -/
def committed (given : Match) (state : State) : State :=
  { given.inTxn state with tables := (given.inTxn state).working }

/-- The record with its player ids. -/
def filled (given : Match) (ram : Ram) : MatchRecord :=
  { given.record with participants := fillPlayerIds given.record.participants (given.pids ram) }

/-- Where the transactions can fail before anything is written. -/
def earlySites : List Site :=
  [.txn .guard .begin, .txn .guard (.openTable .progress), .txn .guard (.get .progress),
    .txn .storeMatch .begin, .txn .storeMatch (.openTable .players)]

/-- The memory when the match could not be committed. -/
inductive Failed (given : Match) (before : State) : Site → Ram → Prop where
  | early {site : Site} (inside : site ∈ earlySites) : Failed given before site before.ram
  | player {site : Site} {ram : Ram} (failed : PlayerFailed given.puuids before.ram site ram) :
      Failed given before site ram
  | effects {site : Site} {ram : Ram}
      (failed : given.EffectsFailed (before.tables.progress.get given.key).isSome
        (given.pids before.ram) (given.entered before) site ram) : Failed given before site ram
  | commit : Failed given before (.txn .storeMatch .commit) (given.inTxn before).ram

/-- **The transaction of `store_match`** commits the match, or stops with nothing changed
outside. -/
theorem matchTxn_meets (given : Match) (before : State) :
    Meets (matchTxn given.record given.puuids given.tsMs given.growthPaused) before
      (fun value after => value.1 = given.filled before.ram ∧ after = given.committed before)
      (Stopped before (given.Failed before)) := by
  unfold matchTxn
  refine meets_touch_bind (.refl _) (.early (by decide))
    (meets_touch_bind (.refl _) (.early (by decide)) (Meets.ask_bind ⟨.refl _, nofun⟩ ?_ ?_))
  · refine ⟨.refl _, ?_⟩
    rintro site ⟨⟩
    exact .early (by decide)
  · refine Meets.step_bind ⟨.refl _, nofun⟩ ⟨.refl _, ?_⟩ ?_
    · rintro site ⟨⟩
      exact .early (by decide)
    · refine meets_touch_bind ⟨rfl, rfl, rfl, rfl⟩ (.early (by decide)) ?_
      refine meets_part_bind ⟨rfl, rfl, rfl, rfl⟩ (matchPlayerIds_meets given.puuids _)
        (fun _ _ failed => .player failed) fun pids between here => ?_
      rw [here.1, here.2]
      refine meets_part_bind ⟨rfl, rfl, rfl, rfl⟩
        (given.effects_meets _ _ (length_assign before.ram given.puuids))
        (fun _ _ failed => .effects failed) fun adopted between here => ?_
      rw [here]
      have outside : Outside before (given.inTxn before) := given.inTxn_outside before
      refine Meets.step_bind ⟨outside, nofun⟩ ⟨outside, ?_⟩ (Meets.pure ⟨rfl, rfl⟩)
      rintro site ⟨⟩
      exact .commit

end Match

/-- What the archive leaves of a match that is committed, the call leaves. -/
theorem storeMatch_of_archive {codecs : Segment.Codecs} {given : Match} {clock : Clock}
    {state : State} {kept : State → Prop} {halted : Halt Site → State → Prop}
    (stopped : ∀ halt after, Stopped state (given.Failed state) halt after → halted halt after)
    (archived : Meets (archive codecs (given.filled state.ram) given.puuids clock)
      (given.committed state) (fun _ => kept) halted) :
    Meets (storeMatch codecs given.record given.puuids given.tsMs given.growthPaused clock) state
      (fun _ => kept) halted := by
  unfold storeMatch
  refine ((given.matchTxn_meets state).mono (fun _ _ here => here) stopped).bind
    fun value between here => ?_
  obtain ⟨record, adopted⟩ := value
  obtain ⟨filled, rfl⟩ := here
  have same : record = given.filled state.ram := filled
  subst same
  exact archived.bind fun _ _ left => Meets.pure left

end LolCrawler.Store
