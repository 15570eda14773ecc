import LolCrawler.Store.Faults
import LolCrawler.Store.Layout

/-! # What a crash falls back on

A segment holds the blocks that were flushed, and behind them a part of one that was not
(`Layout`). Wherever a crash comes, the players of the flushed records are durable, and a game in
a durable bitmap has a record in a block that is synced (`BackedAs`). While the store is open, the
other matches of the segment wait in its writer, and their players are in the tables (`LiveAs`).
-/

namespace LolCrawler.Store

open Foundation Segment Prog

variable {codecs : Codecs}

/-! ## Layouts -/

def Stored.raw (stored : Stored) : Bytes := stored.record.encodeToVec

/-- Each participant with a player has the id under which the player is known. -/
def Stored.Named (stored : Stored) (players : Table String Nat) : Prop :=
  ∀ (slot : Nat) part puuid, stored.record.participants[slot]? = some part →
    stored.puuids[slot]? = some puuid →
      ∃ id, players.get puuid = some id ∧ part.playerId = .ofNat id

/-- Matches that were flushed as one block, and what they were compressed to. -/
abbrev Flushed := List (List Stored × Bytes)

def rowsOf (flushed : Flushed) : Rows := flushed.map fun block => (block.1.map Stored.raw, block.2)

/-- What a segment was made of: flushed blocks, a part of another one, and the matches that wait. -/
structure Layout where
  flushed : Flushed
  torn : Bytes
  waiting : List Stored

namespace Layout

/-- The matches of the flushed blocks. -/
def kept (layout : Layout) : List Stored := layout.flushed.flatMap Prod.fst

/-- The match is in a block that is synced. -/
def Safe (codecs : Codecs) (layout : Layout) (held : SegmentFiles) (stored : Stored) : Prop :=
  ∃ count, (rowBlocks codecs (rowsOf (layout.flushed.take count))).length ≤ held.synced .seg ∧
    stored ∈ (layout.flushed.take count).flatMap Prod.fst

/-- Behind the blocks there is this part of another one. -/
def tear (layout : Layout) (torn : Bytes) : Layout := ⟨layout.flushed, torn, layout.waiting⟩

/-- The block of the waiting matches is written. -/
def flush (layout : Layout) (compressed : Bytes) : Layout :=
  ⟨layout.flushed ++ [(layout.waiting, compressed)], [], []⟩

end Layout

/-- The rows of the first matches. -/
theorem rowsOf_take (flushed : Flushed) (count : Nat) :
    rowsOf (flushed.take count) = (rowsOf flushed).take count :=
  List.map_take

/-- The bytes of the rows are those of the matches. -/
theorem rowsOf_raws (flushed : Flushed) :
    (rowsOf flushed).flatMap Prod.fst = (flushed.flatMap Prod.fst).map Stored.raw := by
  rw [rowsOf, List.flatMap_map, List.map_flatMap]

/-- The file is the layout's blocks. -/
structure Laid (codecs : Codecs) (held : SegmentFiles) (layout : Layout) : Prop where
  content : (held.files .seg).getD [] = rowBlocks codecs (rowsOf layout.flushed) ++ layout.torn
  whole : WholeRows codecs (rowsOf layout.flushed)
  part : TornBlock codecs layout.torn

/-- The first blocks are not longer than all of them. -/
theorem rowBlocks_take_le (rows : Rows) (count : Nat) :
    (rowBlocks codecs (rows.take count)).length ≤ (rowBlocks codecs rows).length := by
  calc (rowBlocks codecs (rows.take count)).length
      ≤ (rowBlocks codecs (rows.take count) ++ rowBlocks codecs (rows.drop count)).length := by
        rw [List.length_append]
        exact Nat.le_add_right _ _
    _ = (rowBlocks codecs rows).length := by rw [← rowBlocks_append, List.take_append_drop]

/-- Safe matches are kept. -/
theorem Layout.Safe.kept {layout : Layout} {held : SegmentFiles} {stored : Stored}
    (safe : layout.Safe codecs held stored) : stored ∈ layout.kept := by
  obtain ⟨count, -, inside⟩ := safe
  obtain ⟨block, there, here⟩ := List.mem_flatMap.mp inside
  exact List.mem_flatMap.mpr ⟨block, List.mem_of_mem_take there, here⟩

/-- Nothing synced is lost, up to the end of the blocks. -/
theorem Layout.Safe.tear {layout : Layout} {held held' : SegmentFiles} {stored : Stored}
    (safe : layout.Safe codecs held stored)
    (synced : ∀ len, len ≤ (rowBlocks codecs (rowsOf layout.flushed)).length →
      len ≤ held.synced .seg → len ≤ held'.synced .seg) (torn : Bytes) :
    (layout.tear torn).Safe codecs held' stored := by
  obtain ⟨count, inside, there⟩ := safe
  refine ⟨count, synced _ ?_ inside, there⟩
  rw [rowsOf_take]
  exact rowBlocks_take_le _ _

/-- What was safe before another block was written. -/
theorem Layout.Safe.flush {layout : Layout} {held held' : SegmentFiles} {stored : Stored}
    (safe : layout.Safe codecs held stored)
    (synced : ∀ len, len ≤ (rowBlocks codecs (rowsOf layout.flushed)).length →
      len ≤ held.synced .seg → len ≤ held'.synced .seg) (compressed : Bytes) :
    (layout.flush compressed).Safe codecs held' stored := by
  obtain ⟨count, inside, there⟩ := safe.tear synced layout.torn
  have short : (layout.flush compressed).flushed.take (min count layout.flushed.length) =
      layout.flushed.take count := by
    rw [Layout.flush, List.take_append_of_le_length (Nat.min_le_right _ _), ← List.take_eq_take_min]
  exact ⟨min count layout.flushed.length, by rw [short]; exact inside, by rw [short]; exact there⟩

/-- Where all blocks are synced, every match of theirs is safe. -/
theorem Layout.safe_of_synced {layout : Layout} {held : SegmentFiles} {stored : Stored}
    (synced : (rowBlocks codecs (rowsOf layout.flushed)).length ≤ held.synced .seg)
    (inside : stored ∈ layout.kept) : layout.Safe codecs held stored := by
  refine ⟨layout.flushed.length, ?_, ?_⟩
  · rw [List.take_length]
    exact synced
  · rw [List.take_length]
    exact inside

/-! ## The invariants -/

/-- Every game that `store_match` put into a bitmap is in a safe match. -/
def Saved (codecs : Codecs) (bitmaps : Table String Bitmap) (segments : Place → SegmentFiles)
    (layouts : Place → Layout) : Prop :=
  ∀ platform bitmap gameId, bitmaps.get platform = some bitmap → (gameId, .storeMatch) ∈ bitmap →
    ∃ date stored, (layouts (platform, date)).Safe codecs (segments (platform, date)) stored ∧
      stored.record.gameId = gameId

/-- What a crash falls back on. -/
structure BackedAs (codecs : Codecs) (state : State) (layouts : Place → Layout) : Prop where
  laid : ∀ place, Laid codecs (state.segments place) (layouts place)
  history : ∀ place, state.stored place = (layouts place).kept ++ (layouts place).waiting
  issued : ∃ next, Issued state.durable.players next
  named : ∀ place, ∀ stored ∈ (layouts place).kept, stored.Named state.durable.players
  saved : Saved codecs state.durable.bitmaps state.segments layouts

/-- The copy of the tables has their players and bitmaps. -/
structure State.Tidy (state : State) : Prop where
  players : state.working.players = state.tables.players
  bitmaps : state.working.bitmaps = state.tables.bitmaps

/-- A writer's block holds the matches that wait, and goes behind the whole blocks. -/
structure Writer.Ready (writer : Writer) (held : SegmentFiles) (layout : Layout) : Prop where
  block : writer.block = SegmentWriter.empty.appendAll (layout.waiting.map Stored.record)
  torn : layout.torn = []
  present : (held.files .seg).isSome
  indexed : (held.files .idx).isSome

/-- The store is open: what is not durable is in the tables and in memory. -/
structure LiveAs (codecs : Codecs) (state : State) (layouts : Place → Layout) : Prop
    extends BackedAs codecs state layouts where
  fresh : Issued state.ram.players state.ram.nextPlayerId
  same : SamePlayers state.ram state.tables.players
  grown : ∀ puuid id, state.durable.players.get puuid = some id →
    state.tables.players.get puuid = some id
  known : ∀ place, ∀ stored ∈ state.stored place, stored.Named state.tables.players
  bitmaps : state.tables.bitmaps = state.durable.bitmaps
  tidy : state.Tidy
  writers : ∀ platform writer, state.ram.writers.get platform = some writer →
    writer.Ready (state.segments (platform, writer.date)) (layouts (platform, writer.date))
  idle : ∀ place, (layouts place).waiting ≠ [] →
    ∃ writer, state.ram.writers.get place.1 = some writer ∧ writer.date = place.2
  seen : ∀ platform gameId, (gameId, .storeMatch) ∈ state.ram.bitmap platform → ∃ date stored,
    ((layouts (platform, date)).Safe codecs (state.segments (platform, date)) stored ∨
      stored ∈ (layouts (platform, date)).waiting) ∧ stored.record.gameId = gameId

/-- What was current is durable. -/
def State.Level (state : State) : Prop := state.durable.players = state.tables.players

def State.Backed (codecs : Codecs) (state : State) : Prop :=
  ∃ layouts, BackedAs codecs state layouts

def State.Live (codecs : Codecs) (state : State) : Prop := ∃ layouts, LiveAs codecs state layouts

/-- A store with its layouts is live. -/
theorem LiveAs.live {state : State} {layouts : Place → Layout}
    (live : LiveAs codecs state layouts) :
    state.Live codecs := ⟨layouts, live⟩

/-- A store with its layouts is backed. -/
theorem BackedAs.backed {state : State} {layouts : Place → Layout}
    (backed : BackedAs codecs state layouts) : state.Backed codecs := ⟨layouts, backed⟩

/-- A live store is backed. -/
theorem State.Live.backed {state : State} (live : state.Live codecs) : state.Backed codecs := by
  obtain ⟨layouts, live⟩ := live
  exact ⟨layouts, live.toBackedAs⟩

/-- A player keeps the id, so a match keeps its names. -/
theorem Stored.Named.mono {stored : Stored} {players players' : Table String Nat}
    (named : stored.Named players)
    (keeps : ∀ puuid id, players.get puuid = some id → players'.get puuid = some id) :
    stored.Named players' := by
  intro slot part puuid here takes
  obtain ⟨id, known, same⟩ := named slot part puuid here takes
  exact ⟨id, keeps puuid id known, same⟩

/-! ## What the invariants depend on -/

section Congr

variable {state after : State} {layouts : Place → Layout}

/-- What is durable, the files and the history are the same. -/
structure SameDisk (before after : State) : Prop where
  durable : after.durable = before.durable
  segments : after.segments = before.segments
  stored : after.stored = before.stored

instance : Std.Refl SameDisk := ⟨fun _ => ⟨rfl, rfl, rfl⟩⟩

instance : IsTrans State SameDisk where
  trans _ _ _ one two := ⟨two.durable.trans one.durable, two.segments.trans one.segments,
    two.stored.trans one.stored⟩

/-- Nothing has changed on the disk. -/
theorem Outside.sameDisk (outside : Outside state after) : SameDisk state after :=
  ⟨outside.durable, outside.segments, outside.stored⟩

/-- Backing is about the disk alone. -/
theorem BackedAs.congr (backed : BackedAs codecs state layouts) (same : SameDisk state after) :
    BackedAs codecs after layouts where
  laid := by
    rw [same.segments]
    exact backed.laid
  history := by
    rw [same.stored]
    exact backed.history
  issued := by
    rw [same.durable]
    exact backed.issued
  named := by
    rw [same.durable]
    exact backed.named
  saved := by
    rw [same.durable, same.segments]
    exact backed.saved

/-- Backing is about the disk alone. -/
theorem State.Backed.congr (backed : state.Backed codecs) (same : SameDisk state after) :
    after.Backed codecs := by
  obtain ⟨layouts, backed⟩ := backed
  exact ⟨layouts, backed.congr same⟩

/-- What transactions of the frontier and the cohort leave alone. -/
structure Beside (before after : State) : Prop extends SameDisk before after where
  ids : after.ram.players = before.ram.players
  next : after.ram.nextPlayerId = before.ram.nextPlayerId
  seen : after.ram.seen = before.ram.seen
  writers : after.ram.writers = before.ram.writers
  tidy : before.Tidy → after.Tidy
  players : before.Tidy → after.tables.players = before.tables.players
  bitmaps : before.Tidy → after.tables.bitmaps = before.tables.bitmaps

instance : Std.Refl Beside :=
  ⟨fun _ => ⟨Std.Refl.refl _, rfl, rfl, rfl, rfl, id, fun _ => rfl, fun _ => rfl⟩⟩

instance : IsTrans State Beside where
  trans _ _ _ one two :=
    { toSameDisk := IsTrans.trans _ _ _ one.toSameDisk two.toSameDisk
      ids := two.ids.trans one.ids
      next := two.next.trans one.next
      seen := two.seen.trans one.seen
      writers := two.writers.trans one.writers
      tidy := fun tidy => two.tidy (one.tidy tidy)
      players := fun tidy => (two.players (one.tidy tidy)).trans (one.players tidy)
      bitmaps := fun tidy => (two.bitmaps (one.tidy tidy)).trans (one.bitmaps tidy) }

/-- A store stays live beside changes that do not concern it. -/
theorem LiveAs.beside (live : LiveAs codecs state layouts) (beside : Beside state after) :
    LiveAs codecs after layouts where
  toBackedAs := live.toBackedAs.congr beside.toSameDisk
  fresh := by
    rw [beside.ids, beside.next]
    exact live.fresh
  same := by
    rw [SamePlayers, beside.ids, beside.players live.tidy]
    exact live.same
  grown := by
    rw [beside.durable, beside.players live.tidy]
    exact live.grown
  known := by
    rw [beside.stored, beside.players live.tidy]
    exact live.known
  bitmaps := by
    rw [beside.bitmaps live.tidy, beside.durable]
    exact live.bitmaps
  tidy := beside.tidy live.tidy
  writers := by
    rw [beside.writers, beside.segments]
    exact live.writers
  idle := by
    rw [beside.writers]
    exact live.idle
  seen := by
    simp only [Ram.bitmap, beside.seen, beside.segments]
    exact live.seen

/-- Changes of the memory that concern neither players nor matches. -/
theorem beside_ram (edit : Ram → Ram) (players : (edit state.ram).players = state.ram.players)
    (next : (edit state.ram).nextPlayerId = state.ram.nextPlayerId)
    (seen : (edit state.ram).seen = state.ram.seen)
    (writers : (edit state.ram).writers = state.ram.writers) :
    Beside state { state with ram := edit state.ram } :=
  ⟨⟨rfl, rfl, rfl⟩, players, next, seen, writers, fun tidy => ⟨tidy.players, tidy.bitmaps⟩,
    fun _ => rfl, fun _ => rfl⟩

/-- The steps of the frontier's and the cohort's transactions. -/
theorem beside_steps : Transacts SparesPlayers
    (fun edit => ∃ new : List Nat, edit = fun ram => new.foldl Ram.enrol ram)
    fun (α : Type) (program : Act α) => Leaves Beside program := by
  refine leaves_steps (fun state => ?_) (fun state edit spares => ?_) (fun state edit enrols => ?_)
    fun state => ?_
  · exact ⟨⟨rfl, rfl, rfl⟩, rfl, rfl, rfl, rfl, fun _ => ⟨rfl, rfl⟩, fun _ => rfl, fun _ => rfl⟩
  · refine ⟨⟨rfl, rfl, rfl⟩, rfl, rfl, rfl, rfl, fun tidy => ⟨?_, ?_⟩, fun _ => rfl, fun _ => rfl⟩
    · exact (spares state.working).1.trans tidy.players
    · exact (spares state.working).2.trans tidy.bitmaps
  · obtain ⟨new, rfl⟩ := enrols
    have kept : ∀ (new : List Nat) (ram : Ram),
        (new.foldl Ram.enrol ram).players = ram.players ∧
          (new.foldl Ram.enrol ram).nextPlayerId = ram.nextPlayerId ∧
          (new.foldl Ram.enrol ram).seen = ram.seen ∧
          (new.foldl Ram.enrol ram).writers = ram.writers := by
      intro new
      induction new with
      | nil => exact fun _ => ⟨rfl, rfl, rfl, rfl⟩
      | cons pid new ih => exact fun ram => ih (ram.enrol pid)
    obtain ⟨players, next, seen, writers⟩ := kept new state.ram
    exact beside_ram (fun ram => new.foldl Ram.enrol ram) players next seen writers
  · exact ⟨⟨rfl, rfl, rfl⟩, rfl, rfl, rfl, rfl, fun _ => ⟨rfl, rfl⟩, fun tidy => tidy.players,
      fun tidy => tidy.bitmaps⟩

end Congr

end LolCrawler.Store
