import LolCrawler.Store.Backed

/-! # Flushes, openings and appended matches

What the writers of the segments do keeps the store live, and wherever a crash comes, it leaves the
store backed. A block is flushed only once the players of its matches are durable
(`flush_endures`); its matches are safe before a bitmap can claim them.
-/

namespace LolCrawler.Store

open Foundation Segment Prog

variable {codecs : Codecs} {state after : State} {layouts : Place → Layout}

/-! ## One segment changes -/

section Files

variable {place : Place} {held : SegmentFiles} {layout : Layout}

theorem Saved.update {bitmaps : Table String Bitmap} {segments : Place → SegmentFiles}
    (saved : Saved codecs bitmaps segments layouts)
    (safe : ∀ stored, (layouts place).Safe codecs (segments place) stored →
      layout.Safe codecs held stored) :
    Saved codecs bitmaps (Function.update segments place held)
      (Function.update layouts place layout) := by
  intro platform bitmap gameId found inside
  obtain ⟨date, stored, here, game⟩ := saved platform bitmap gameId found inside
  refine ⟨date, stored, ?_, game⟩
  by_cases same : (platform, date) = place
  · subst same
    rw [Function.update_self, Function.update_self]
    exact safe stored here
  · rw [Function.update_of_ne same, Function.update_of_ne same]
    exact here

/-- The store stays backed when one segment gets another layout of the same matches. -/
theorem BackedAs.withFiles (backed : BackedAs codecs state layouts) (laid : Laid codecs held layout)
    (history : layout.kept ++ layout.waiting = (layouts place).kept ++ (layouts place).waiting)
    (named : ∀ stored ∈ layout.kept, stored.Named state.durable.players)
    (safe : ∀ stored, (layouts place).Safe codecs (state.segments place) stored →
      layout.Safe codecs held stored) :
    BackedAs codecs (state.withFiles place held) (Function.update layouts place layout) where
  laid := by
    intro other
    simp only [State.withFiles, Function.update_apply]
    split
    · exact laid
    · exact backed.laid other
  history := by
    intro other
    simp only [State.withFiles, Function.update_apply]
    split
    · next same =>
        rw [same, history]
        exact backed.history place
    · exact backed.history other
  issued := backed.issued
  named := by
    intro other stored
    simp only [Function.update_apply]
    split
    · exact named stored
    · exact backed.named other stored
  saved := backed.saved.update safe

/-- A writer that has nothing waiting, at the end of a segment in which nothing waits. -/
def State.settled (state : State) (place : Place) (held : SegmentFiles) : State :=
  { state.withFiles place held with
    ram := { state.ram with writers := state.ram.writers.insert place.1 ⟨place.2, .empty⟩ } }

/-- **A segment at rest.** All its matches are flushed, and the writer moves there. -/
theorem LiveAs.settle (live : LiveAs codecs state layouts) (laid : Laid codecs held layout)
    (torn : layout.torn = []) (rests : layout.waiting = []) (present : (held.files .seg).isSome)
    (indexed : (held.files .idx).isSome)
    (kept : layout.kept = (layouts place).kept ++ (layouts place).waiting)
    (named : ∀ stored ∈ layout.kept, stored.Named state.durable.players)
    (safe : ∀ stored, (layouts place).Safe codecs (state.segments place) stored →
      layout.Safe codecs held stored)
    (waited : ∀ stored ∈ (layouts place).waiting, layout.Safe codecs held stored)
    (others : ∀ writer, state.ram.writers.get place.1 = some writer → writer.date ≠ place.2 →
      (layouts (place.1, writer.date)).waiting = []) :
    LiveAs codecs (state.settled place held) (Function.update layouts place layout) where
  toBackedAs := (live.toBackedAs.withFiles laid (by rw [rests, List.append_nil, kept]) named
    safe).congr ⟨rfl, rfl, rfl⟩
  fresh := live.fresh
  same := live.same
  grown := live.grown
  known := live.known
  bitmaps := live.bitmaps
  tidy := ⟨live.tidy.players, live.tidy.bitmaps⟩
  writers := by
    intro platform writer found
    simp only [State.settled, Table.get_insert] at found
    simp only [State.settled, State.withFiles, Function.update_apply]
    split at found
    · next same =>
        cases found
        rw [if_pos (by rw [same]), if_pos (by rw [same])]
        refine ⟨?_, torn, present, indexed⟩
        rw [rests]
        rfl
    · next different =>
        have elsewhere : (platform, writer.date) ≠ place := by
          intro same
          exact different (congrArg Prod.fst same)
        rw [if_neg elsewhere, if_neg elsewhere]
        exact live.writers platform writer found
  idle := by
    intro other waits
    simp only [Function.update_apply] at waits
    split at waits
    · exact (waits rests).elim
    · next elsewhere =>
        obtain ⟨writer, found, date⟩ := live.idle other waits
        refine ⟨writer, ?_, date⟩
        simp only [State.settled]
        rw [Table.get_insert_of_ne _ _ fun same => ?_]
        · exact found
        · rw [same] at found
          have away : writer.date ≠ place.2 := by
            intro there
            exact elsewhere (Prod.ext same (date.symm.trans there))
          have none := others writer found away
          rw [← same, date] at none
          exact waits none
  seen := by
    intro platform gameId inside
    obtain ⟨date, stored, here, game⟩ := live.seen platform gameId inside
    refine ⟨date, stored, ?_, game⟩
    simp only [State.settled, State.withFiles, Function.update_apply]
    split
    · next same =>
        rw [same] at here
        exact .inl (here.elim (safe stored) (waited stored))
    · exact here

end Files

/-! ## A flush -/

section Flush

variable {platform : String} {writer : Writer}

/-- Giving a segment the files it has changes nothing. -/
theorem withFiles_same (state : State) (place : Place) :
    state.withFiles place (state.segments place) = state := by
  rw [State.withFiles, Function.update_eq_self]

/-- Where nothing is pending, nothing waits. -/
theorem Writer.Ready.none_waiting {held : SegmentFiles} {layout : Layout}
    (ready : writer.Ready held layout) (none : writer.block.pending = []) :
    layout.waiting = [] ∧ writer.block = .empty := by
  have count := pending_appendAll (layout.waiting.map Stored.record) .empty
  rw [← ready.block, none, List.length_map] at count
  have rests : layout.waiting = [] := by
    rw [← List.length_eq_zero_iff]
    simp only [SegmentWriter.empty, List.length_nil, Nat.zero_add] at count
    exact count.symm
  refine ⟨rests, ?_⟩
  rw [ready.block, rests]
  rfl

/-- The block of the waiting matches. -/
theorem Writer.Ready.rowBlock {held : SegmentFiles} {layout : Layout}
    (ready : writer.Ready held layout) (fits : writer.block.Fits codecs) {compressed : Bytes}
    (packed : codecs.compress writer.block.buf zstdLevel = .ok compressed) :
    RowBlock codecs (layout.waiting.map Stored.raw) compressed ∧
      writer.block.block codecs compressed =
        rowBlockBytes codecs (layout.waiting.map Stored.raw) compressed := by
  have block := ready.block
  have raws : (layout.waiting.map Stored.record).map MatchRecord.encodeToVec =
      layout.waiting.map Stored.raw := by
    rw [List.map_map]
    rfl
  rw [block] at fits packed ⊢
  rw [← raws]
  exact rowBlock_of_fits fits packed

theorem rowsOf_flush (layout : Layout) (compressed : Bytes) :
    rowsOf (layout.flush compressed).flushed =
      rowsOf layout.flushed ++ [(layout.waiting.map Stored.raw, compressed)] :=
  List.map_append

theorem kept_flush (layout : Layout) (compressed : Bytes) :
    (layout.flush compressed).kept = layout.kept ++ layout.waiting := by
  rw [Layout.kept, Layout.flush, List.flatMap_append, List.flatMap_singleton]
  rfl

/-- The layout of a segment to which the whole block was written. -/
theorem Laid.flush {held held' : SegmentFiles} {layout : Layout} (laid : Laid codecs held layout)
    {compressed : Bytes} (block : RowBlock codecs (layout.waiting.map Stored.raw) compressed)
    (content : (held'.files .seg).getD [] = rowBlocks codecs (rowsOf layout.flushed) ++
      rowBlockBytes codecs (layout.waiting.map Stored.raw) compressed) :
    Laid codecs held' (layout.flush compressed) where
  content := by
    rw [rowsOf_flush, rowBlocks_concat, content]
    exact (List.append_nil _).symm
  whole := by
    intro other inside
    rw [rowsOf_flush] at inside
    rcases List.mem_append.mp inside with before | last
    · exact laid.whole other before
    · rw [List.mem_singleton] at last
      rw [last]
      exact block
  part := tornBlock_nil

/-- The files of a segment, as the writer finds them. -/
theorem LiveAs.found (live : LiveAs codecs state layouts)
    (found : state.ram.writers.get platform = some writer) :
    (state.segments (platform, writer.date)).files .seg =
      some (rowBlocks codecs (rowsOf (layouts (platform, writer.date)).flushed)) := by
  have ready := live.writers platform writer found
  have content := (live.laid (platform, writer.date)).content
  obtain ⟨seg, present⟩ := Option.isSome_iff_exists.mp ready.present
  rw [present, ready.torn, List.append_nil, Option.getD_some] at content
  rw [present, content]

/-- What a flush that a crash cuts short leaves. -/
theorem LiveAs.flush_cut (live : LiveAs codecs state layouts) (level : state.Level)
    (found : state.ram.writers.get platform = some writer) (fits : writer.block.Fits codecs)
    {compressed : Bytes} (packed : codecs.compress writer.block.buf zstdLevel = .ok compressed)
    {done : List (Op File)} (early : done <+: flushOps codecs writer.block
      (rowBlocks codecs (rowsOf (layouts (platform, writer.date)).flushed)).length compressed) :
    (state.withFiles (platform, writer.date)
      (done.foldl resync (state.segments (platform, writer.date)))).Backed codecs := by
  have ready := live.writers platform writer found
  have present := live.found found
  have laid := live.laid (platform, writer.date)
  obtain ⟨block, bytes⟩ := ready.rowBlock fits packed
  obtain ⟨⟨written, content⟩, synced⟩ := flushOps_early present early
  rw [bytes] at content
  by_cases short : written <
      (rowBlockBytes codecs ((layouts (platform, writer.date)).waiting.map Stored.raw)
        compressed).length
  · -- A part of the block: the matches still wait.
    have torn : Laid codecs (done.foldl resync (state.segments (platform, writer.date)))
        ((layouts (platform, writer.date)).tear
          ((rowBlockBytes codecs ((layouts (platform, writer.date)).waiting.map Stored.raw)
            compressed).take written)) :=
      ⟨by rw [content, Option.getD_some]; rfl, laid.whole, block.torn short⟩
    exact ⟨_, live.toBackedAs.withFiles torn rfl (live.named _) fun stored safe =>
      safe.tear synced _⟩
  · -- The whole block, not synced perhaps.
    rw [List.take_of_length_le (Nat.not_lt.mp short)] at content
    refine ⟨_, live.toBackedAs.withFiles (laid.flush block (by rw [content, Option.getD_some])) ?_
      (fun stored inside => ?_) fun stored safe => safe.flush synced _⟩
    · rw [kept_flush]
      exact List.append_nil _
    · rw [kept_flush, ← live.history] at inside
      rw [level]
      exact live.known _ stored inside

/-- The store stays live when a flush is done. -/
theorem LiveAs.flush_done (live : LiveAs codecs state layouts) (level : state.Level)
    (found : state.ram.writers.get platform = some writer) (fits : writer.block.Fits codecs)
    {compressed : Bytes} (packed : codecs.compress writer.block.buf zstdLevel = .ok compressed) :
    LiveAs codecs (state.settled (platform, writer.date)
      ((flushOps codecs writer.block
        (rowBlocks codecs (rowsOf (layouts (platform, writer.date)).flushed)).length
          compressed).foldl resync (state.segments (platform, writer.date))))
      (Function.update layouts (platform, writer.date)
        ((layouts (platform, writer.date)).flush compressed)) := by
  have ready := live.writers platform writer found
  have present := live.found found
  obtain ⟨idx, indexed⟩ := Option.isSome_iff_exists.mp ready.indexed
  obtain ⟨block, bytes⟩ := ready.rowBlock fits packed
  obtain ⟨content, indexed', synced⟩ :=
    @flushOps_whole codecs writer.block _ _ _ compressed present indexed
  rw [bytes] at content synced
  have laid := (live.laid (platform, writer.date)).flush block
    (show (Option.getD _ []) = _ by rw [content, Option.getD_some])
  have all : (rowBlocks codecs (rowsOf ((layouts (platform, writer.date)).flush
      compressed).flushed)).length ≤ ((flushOps codecs writer.block
        (rowBlocks codecs (rowsOf (layouts (platform, writer.date)).flushed)).length
          compressed).foldl resync (state.segments (platform, writer.date))).synced .seg := by
    rw [synced, rowsOf_flush, rowBlocks_concat]
  refine live.settle laid rfl rfl (by rw [content]; rfl) indexed' (kept_flush _ _)
    (fun stored inside => ?_) (fun stored safe => ?_) (fun stored waits => ?_) ?_
  · rw [kept_flush, ← live.history] at inside
    rw [level]
    exact live.known _ stored inside
  · refine Layout.safe_of_synced all ?_
    rw [kept_flush]
    exact List.mem_append_left _ safe.kept
  · refine Layout.safe_of_synced all ?_
    rw [kept_flush]
    exact List.mem_append_right _ waits
  · intro other there away
    rw [found, Option.some.injEq] at there
    exact (away (congrArg Writer.date there).symm).elim

/-- A writer is set, and then the program goes on. -/
theorem setWriter_bind {α : Type} {second : Unit → Act α} {done : α → State → Prop}
    {failed crashed : State → Prop}
    (rest : Endures (second ())
      { state with ram := { state.ram with writers := state.ram.writers.insert platform writer } }
      done failed crashed) :
    Endures (setWriter platform writer >>= second) state done failed crashed := by
  unfold setWriter setRam
  exact Endures.modify_bind rest

/-- The writer is where it was, and its segment rests. -/
structure Rested (codecs : Codecs) (before : State) (layouts : Place → Layout) (platform : String)
    (writer : Writer) (after : State) (layouts' : Place → Layout) : Prop where
  live : LiveAs codecs after layouts'
  level : after.Level
  rests : (layouts' (platform, writer.date)).waiting = []
  writers : after.ram.writers = before.ram.writers.insert platform ⟨writer.date, .empty⟩
  others : ∀ place, place ≠ (platform, writer.date) → layouts' place = layouts place

/-- The part that `flush` and `roll` share. -/
def flushAndSet (codecs : Codecs) (platform : String) (writer : Writer) : Act SegmentWriter := do
  let block ← onFiles (platform, writer.date) (writer.block.flush codecs)
  setWriter platform { writer with block := block }
  pure block

/-- **A flush.** It writes the waiting matches once their players are durable. -/
theorem flushAndSet_endures (live : LiveAs codecs state layouts) (level : state.Level)
    (found : state.ram.writers.get platform = some writer) (fits : writer.block.Fits codecs) :
    Endures (flushAndSet codecs platform writer) state
      (fun block after => block = .empty ∧
        ∃ layouts', Rested codecs state layouts platform writer after layouts')
      (State.Live codecs) (State.Backed codecs) := by
  have ready := live.writers platform writer found
  have present := live.found found
  obtain ⟨idx, indexed⟩ := Option.isSome_iff_exists.mp ready.indexed
  by_cases none : writer.block.pending = []
  · -- Nothing waits: the block is empty, and the files stay.
    obtain ⟨rests, empty⟩ := ready.none_waiting none
    have still : Performs (writer.block.flush codecs) (state.segments (platform, writer.date)).files
        [] (.ok .empty) := by
      rw [SegmentWriter.flush, if_pos (List.isEmpty_iff.mpr none), empty]
      exact .pure _
    refine ((onFiles_endures still).mono (fun _ _ here => here) (fun after here => ?_)
      fun after here => ?_).bind fun block after here => ?_
    · obtain ⟨⟨_, impossible⟩, -⟩ := here
      cases impossible
    · obtain ⟨done, early, rfl⟩ := here
      rw [List.prefix_nil.mp early]
      exact (withFiles_same state _).symm ▸ live.live.backed
    · obtain ⟨same, rfl⟩ := here
      cases same
      have kept : (layouts (platform, writer.date)).kept =
          (layouts (platform, writer.date)).kept ++ (layouts (platform, writer.date)).waiting := by
        rw [rests, List.append_nil]
      have rested := live.settle (live.laid (platform, writer.date)) ready.torn rests ready.present
        ready.indexed kept (live.named _) (fun _ safe => safe)
        (fun stored waits => by rw [rests] at waits; cases waits) (fun other there away => by
          rw [found, Option.some.injEq] at there
          exact (away (congrArg Writer.date there).symm).elim)
      rw [Function.update_eq_self] at rested
      refine setWriter_bind (Endures.pure ?_)
      exact ⟨rfl, layouts, rested, level, rests, rfl, fun _ _ => rfl⟩
  · cases packed : codecs.compress writer.block.buf zstdLevel with
    | error err =>
        have same : ∀ done, done <+: [Op.observe] →
            state.withFiles (platform, writer.date)
              (done.foldl resync (state.segments (platform, writer.date))) = state := by
          intro done early
          have still : done.foldl resync (state.segments (platform, writer.date)) =
              state.segments (platform, writer.date) := by
            rcases List.prefix_cons_iff.mp early with rfl | ⟨rest, rfl, later⟩
            · rfl
            · rw [List.prefix_nil.mp later]
              rfl
          rw [still, withFiles_same]
        refine ((onFiles_endures (flush_gives_up present none packed)).mono (fun _ _ here => here)
          (fun after here => ?_) fun after here => ?_).bind fun block after here => ?_
        · obtain ⟨-, rfl⟩ := here
          rw [same _ (List.prefix_refl _)]
          exact live.live
        · obtain ⟨done, early, rfl⟩ := here
          rw [same done early]
          exact live.live.backed
        · obtain ⟨impossible, -⟩ := here
          cases impossible
    | ok compressed =>
        refine ((onFiles_endures (flush_performs present indexed none packed)).mono
          (fun _ _ here => here) (fun after here => ?_) fun after here => ?_).bind
            fun block after here => ?_
        · obtain ⟨⟨_, impossible⟩, -⟩ := here
          cases impossible
        · obtain ⟨done, early, rfl⟩ := here
          exact live.flush_cut level found fits packed early
        · obtain ⟨same, rfl⟩ := here
          cases same
          refine setWriter_bind (Endures.pure ?_)
          refine ⟨rfl, _, live.flush_done level found fits packed, level, ?_, rfl, ?_⟩
          · rw [Function.update_self]
            rfl
          · intro place different
            exact Function.update_of_ne different _ _

end Flush

/-! ## An opening -/

section Open

variable {platform today : String}

/-- Where no match waits for the writer, none waits for the platform. -/
theorem LiveAs.none_waiting (live : LiveAs codecs state layouts)
    (rests : ∀ writer, state.ram.writers.get platform = some writer →
      (layouts (platform, writer.date)).waiting = []) (date : String) :
    (layouts (platform, date)).waiting = [] := by
  by_contra waits
  obtain ⟨writer, found, same⟩ := live.idle (platform, date) waits
  have none := rests writer found
  rw [same] at none
  exact waits none

/-- Files are opened, and the writer moves there. -/
def openAndSet (platform today : String) : Act Unit := do
  onFiles (platform, today) openFiles
  setWriter platform ⟨today, .empty⟩

/-- **An opening.** It cuts off the part of a block that a crash has left. -/
theorem openAndSet_endures (live : LiveAs codecs state layouts)
    (rests : ∀ writer, state.ram.writers.get platform = some writer →
      (layouts (platform, writer.date)).waiting = []) (today : String) :
    Endures (openAndSet platform today) state
      (fun _ after => after.Live codecs ∧
        after.ram.writers.get platform = some ⟨today, .empty⟩)
      (State.Live codecs) (State.Backed codecs) := by
  have none := live.none_waiting rests
  have laid := live.laid (platform, today)
  have valid := validateSegment_torn laid.part laid.whole
  rw [← laid.content] at valid
  have cut : ((state.segments (platform, today)).files .seg |>.getD []).take
      (validateSegment (((state.segments (platform, today)).files .seg).getD [])) =
        rowBlocks codecs (rowsOf (layouts (platform, today)).flushed) := by
    rw [valid, laid.content, List.take_left]
  have torn : ∀ held : SegmentFiles,
      (held.files .seg).getD [] = rowBlocks codecs (rowsOf (layouts (platform, today)).flushed) →
        Laid codecs held ((layouts (platform, today)).tear []) := by
    intro held content
    exact ⟨by rw [content]; exact (List.append_nil _).symm, laid.whole, tornBlock_nil⟩
  refine ((onFiles_endures (openFiles_performs _)).mono (fun _ _ here => here)
    (fun after here => ?_)
    fun after here => ?_).bind fun _ after here => ?_
  · obtain ⟨⟨_, impossible⟩, -⟩ := here
    cases impossible
  · obtain ⟨done, early, rfl⟩ := here
    obtain ⟨same | shorter, synced⟩ := openOps_early rfl early
    · have still : Laid codecs _
        ((layouts (platform, today)).tear (layouts (platform, today)).torn) :=
        ⟨same.trans laid.content, laid.whole, laid.part⟩
      refine ⟨_, live.toBackedAs.withFiles still rfl (live.named _)
        fun stored safe => safe.tear (fun len inside => synced len ?_) _⟩
      rw [valid]
      exact inside
    · refine ⟨_, live.toBackedAs.withFiles (torn _ (shorter.trans cut)) rfl (live.named _)
        fun stored safe => safe.tear (fun len inside => synced len ?_) _⟩
      rw [valid]
      exact inside
  · obtain ⟨-, rfl⟩ := here
    obtain ⟨present, indexed⟩ := @openOps_whole (state.segments (platform, today)) _ rfl
    obtain ⟨-, synced⟩ := @openOps_early (state.segments (platform, today)) _ rfl _
      (List.prefix_refl _)
    rw [cut] at present
    have content : (((openOps (((state.segments (platform, today)).files .seg).getD [])).foldl
        resync (state.segments (platform, today))).files .seg).getD [] =
          rowBlocks codecs (rowsOf (layouts (platform, today)).flushed) := by
      rw [present, Option.getD_some]
    have settled := live.settle (torn _ content) rfl (none today) (by rw [present]; rfl) indexed
      (by rw [none today, List.append_nil]; rfl) (live.named _)
      (fun stored safe => safe.tear (fun len inside => synced len (by rw [valid]; exact inside)) _)
      (fun stored waits => by rw [none today] at waits; cases waits)
      fun writer found _ => rests writer found
    unfold setWriter setRam
    exact Endures.modify ⟨⟨_, settled⟩, Table.get_insert_self _ _ _⟩

end Open

/-! ## An appended match -/

section Append

variable {writer : Writer}

/-- The state after a match was appended and its game was marked. -/
def State.appended (state : State) (platform : String) (writer : Writer)
    (stored : Stored) : State :=
  { state with
    ram := ({ state.ram with
      writers := state.ram.writers.insert platform
        { writer with block := writer.block.append stored.record } }).mark .storeMatch platform
          stored.record.gameId
    stored := Function.update state.stored (platform, writer.date)
      (state.stored (platform, writer.date) ++ [stored]) }

/-- The layout with one more match that waits. -/
def Layout.append (layout : Layout) (stored : Stored) : Layout :=
  ⟨layout.flushed, layout.torn, layout.waiting ++ [stored]⟩

/-- **An appended match** waits for the next flush. -/
theorem LiveAs.append {platform : String} (live : LiveAs codecs state layouts)
    (found : state.ram.writers.get platform = some writer) {stored : Stored}
    (named : stored.Named state.tables.players) :
    LiveAs codecs (state.appended platform writer stored)
      (Function.update layouts (platform, writer.date)
        ((layouts (platform, writer.date)).append stored)) := by
  have ready := live.writers platform writer found
  have flushed : ∀ place, (Function.update layouts (platform, writer.date)
      ((layouts (platform, writer.date)).append stored) place).flushed =
        (layouts place).flushed := by
    intro place
    rw [Function.update_apply]
    split
    · next same =>
        rw [same]
        rfl
    · rfl
  have safe : ∀ {place : Place} {other : Stored} {held : SegmentFiles},
      (layouts place).Safe codecs held other →
        (Function.update layouts (platform, writer.date)
          ((layouts (platform, writer.date)).append stored) place).Safe codecs held other := by
    intro place other held here
    rw [Layout.Safe, flushed]
    exact here
  have waiting : ∀ {place : Place} {other : Stored}, other ∈ (layouts place).waiting →
      other ∈ (Function.update layouts (platform, writer.date)
        ((layouts (platform, writer.date)).append stored) place).waiting := by
    intro place other here
    rw [Function.update_apply]
    split
    · next same =>
        rw [same] at here
        exact List.mem_append_left _ here
    · exact here
  constructor
  · -- What is durable does not change.
    constructor
    · intro place
      obtain ⟨content, whole, part⟩ := live.laid place
      rw [Function.update_apply]
      split
      · next same =>
          subst same
          exact ⟨content, whole, part⟩
      · exact ⟨content, whole, part⟩
    · intro place
      simp only [State.appended, Function.update_apply]
      split
      · next same =>
          rw [live.history, List.append_assoc]
          rfl
      · exact live.history place
    · exact live.issued
    · intro place other inside
      rw [Layout.kept, flushed] at inside
      exact live.named place other inside
    · intro other bitmap gameId here inside
      obtain ⟨date, kept, there, game⟩ := live.saved other bitmap gameId here inside
      exact ⟨date, kept, safe there, game⟩
  · exact live.fresh
  · exact live.same
  · exact live.grown
  · intro place other inside
    simp only [State.appended, Function.update_apply] at inside
    split at inside
    · rcases List.mem_append.mp inside with before | new
      · exact live.known _ other before
      · rw [List.mem_singleton.mp new]
        exact named
    · exact live.known place other inside
  · exact live.bitmaps
  · exact ⟨live.tidy.players, live.tidy.bitmaps⟩
  · intro other writer' here
    simp only [State.appended, Ram.mark, Table.get_insert] at here
    split at here
    · next same =>
        subst same
        cases here
        simp only [Function.update_self]
        refine ⟨?_, ready.torn, ready.present, ready.indexed⟩
        rw [Layout.append, List.map_append, List.map_singleton, appendAll_concat, ← ready.block]
    · next different =>
        have elsewhere : (other, writer'.date) ≠ (platform, writer.date) :=
          fun same => different (congrArg Prod.fst same)
        rw [Function.update_of_ne elsewhere]
        exact live.writers other writer' here
  · intro place waits
    rw [Function.update_apply] at waits
    simp only [State.appended, Ram.mark, Table.get_insert]
    split at waits
    · next same => exact ⟨_, if_pos (congrArg Prod.fst same), (congrArg Prod.snd same).symm⟩
    · obtain ⟨writer', here, date⟩ := live.idle place waits
      split
      · next same =>
          rw [same, found, Option.some.injEq] at here
          exact ⟨_, rfl, by rw [here, date]⟩
      · exact ⟨writer', here, date⟩
  · intro other gameId inside
    simp only [State.appended, Ram.mark, Ram.bitmap, Table.get_insert] at inside
    have before : (gameId, Origin.storeMatch) ∈ state.ram.bitmap other → ∃ date kept,
        ((Function.update layouts (platform, writer.date)
            ((layouts (platform, writer.date)).append stored) (other, date)).Safe codecs
              (state.segments (other, date)) kept ∨
          kept ∈ (Function.update layouts (platform, writer.date)
            ((layouts (platform, writer.date)).append stored) (other, date)).waiting) ∧
        kept.record.gameId = gameId := by
      intro seen
      obtain ⟨date, kept, here, game⟩ := live.seen other gameId seen
      exact ⟨date, kept, here.imp safe waiting, game⟩
    split at inside
    · next same =>
        subst same
        rw [Option.getD_some, Finset.mem_insert] at inside
        rcases inside with new | old
        · refine ⟨writer.date, stored, .inr ?_, (congrArg Prod.fst new).symm⟩
          rw [Function.update_self]
          exact List.mem_append_right _ (List.mem_singleton_self _)
        · exact before old
    · exact before inside

end Append

end LolCrawler.Store
