import LolCrawler.Segment.Recompacted

/-! # Recompaction cut short

Wherever a call stops, by a crash or with an error, and whatever has failed before, the
two files are either untouched or the segment has been compacted
(`recompactSegmentInner_eq_error`). The compacted segment has the records that were read.
A read that fails counts as a torn tail, so these are all the records unless the read of
an intact block failed (`recompactSegment_interrupted`).
-/

namespace LolCrawler.Segment

open Foundation

variable {codecs : Codecs} {paths : Paths}

/-- The operation puts a file in another's place, or truncates one. -/
def Op.Replaces : Op File → Prop
  | .rename _ _ | .setLen _ _ => True
  | .observe | .sync _ | .remove _ | .create _ | .touch _ | .write _ _ => False

/-- The operation leaves the segment alone. -/
def Op.SparesSeg (op : Op File) : Prop := op.Spares .seg

/-- Looking spares the segment. -/
theorem sparesSeg_of_looks (op : Op File) (looks : Op.Looks op) : Op.SparesSeg op :=
  looks.spares .seg

/-- Work on the temporary files spares the segment. -/
theorem sparesSeg_of_onTmps (op : Op File) (tmps : Op.OnTmps op) : Op.SparesSeg op :=
  (Op.OnTmps.spares tmps).1

/-- Nothing has been replaced yet. -/
def Fresh (world : World File) : Prop := ∀ op ∈ world.log, ¬ Op.Replaces op

/-- Work on the temporary files leaves a fresh world fresh. -/
theorem Fresh.of_only {α : Type} {action : Fs File α} {world after : World File}
    {result : Except Stop α} (only : Only Op.OnTmps action) (run : action world = (result, after))
    (fresh : Fresh world) : Fresh after := by
  intro op done replaces
  rcases only.allowed_of_mem_log run done with before | onTmps
  · exact fresh op before replaces
  · cases op with
    | rename _ _ | setLen _ _ => exact onTmps
    | observe | sync _ | remove _ | create _ | touch _ | write _ _ => exact replaces

/-- An operation that does not happen is not logged. -/
theorem Fresh.of_step_error {op : Op File} {world after : World File} {stop : Stop}
    (run : Fs.step op world = (.error stop, after)) (fresh : Fresh world) : Fresh after := by
  have same : after.log = world.log := by
    unfold Fs.step at run
    split at run
    · cases run
      rfl
    · cases run
      rfl
    · split at run
      · cases run
      · cases run
        rfl
  unfold Fresh
  rwa [same]

/-! ## Temporary files come first -/

/-- A block is written to a temporary file only. -/
theorem writeContainerBlock_only {path : File} (tmp : path = .segTmp ∨ path = .idxTmp) (magic : Nat)
    (uncompressed compressed : Bytes) :
    Only Op.OnTmps (writeContainerBlock codecs path magic uncompressed compressed) :=
  (Only.lift _).bind fun _ => (Only.lift _).bind fun _ =>
    (Only.step tmp).bind fun _ => Only.step tmp

/-- The chunks are written to the temporary file only. -/
theorem writeChunks_only (chunks : List (List Bytes)) :
    Only Op.OnTmps (writeChunks codecs chunks) := by
  induction chunks with
  | nil => exact .pure _
  | cons chunk chunks ih =>
      refine Only.bind ?_ fun _ => (Only.lift _).bind fun _ => ih.bind fun _ => .pure _
      exact (Only.read _ trivial).bind fun _ => (Only.lift _).bind fun _ =>
        (Only.lift _).bind fun _ =>
        (writeContainerBlock_only (.inl rfl) _ _ _).bind fun _ => .pure _

/-- The temporary index is written alone. -/
theorem writeIdxTmp_only (entries : List IdxEntry) : Only Op.OnTmps (writeIdxTmp paths entries) :=
  (Only.step (.inr rfl)).context.bind fun _ =>
    (Only.step (.inr rfl)).bind fun _ => (Only.step trivial).context

/-- A strict read only looks. -/
theorem readSegmentRecordsStrict_only (path : File) :
    Only Op.Looks (readSegmentRecordsStrict codecs paths path) :=
  (readSegmentLayoutIo_only _ _ _).bind fun _ => (Only.lift _).bind fun _ => .pure _

/-- The temporary files are removed, and nothing else. -/
theorem removeTmps_only {α : Type} (err : Error) :
    Only Op.OnTmps (do
      let _ ← Fs.attempt (Fs.step (.remove .segTmp))
      let _ ← Fs.attempt (Fs.step (.remove .idxTmp))
      Fs.fail err : Fs File α) :=
  (Only.step (.inl rfl)).attempt.bind fun _ =>
    (Only.step (.inr rfl)).attempt.bind fun _ => .fail _

/-- The rewrite works on the temporary files before its renames. -/
theorem writeTmps_only (layout : SegmentLayout) :
    Only Op.OnTmps (writeTmps codecs paths layout) := by
  refine (Only.step (.inl rfl)).context.bind fun _ => (writeChunks_only _).bind fun _ => ?_
  refine (Only.step trivial).context.bind fun _ => (writeIdxTmp_only _).bind fun _ => ?_
  refine ((readSegmentRecordsStrict_only _).mono onTmps_of_looks).bind fun rewritten => ?_
  unfold verifyOrRemove
  cases verifyRewrite layout.records rewritten with
  | ok _ => exact .pure _
  | error err => exact removeTmps_only err

/-! ## Where a call can stop -/

/-- The segment is compacted and holds these records. -/
def CompactedOn (codecs : Codecs) (files : Files File) (records : List Bytes) : Prop :=
  ∃ seg blocks entries, files .seg = some seg ∧ Compacted codecs seg blocks entries ∧
    recordsOf blocks = records

/-- What spares the segment leaves it compacted. -/
theorem CompactedOn.of_only {α : Type} {action : Fs File α} {world after : World File}
    {result : Except Stop α} {records : List Bytes} (only : Only Op.SparesSeg action)
    (run : action world = (result, after)) (compacted : CompactedOn codecs world.files records) :
    CompactedOn codecs after.files records := by
  obtain ⟨seg, blocks, entries, present, rest⟩ := compacted
  have kept := only.files_eq run fun _ spares => spares
  exact ⟨seg, blocks, entries, kept.trans present, rest⟩

/-- The rename of the index spares the segment. -/
theorem renameIdx_only : Only Op.SparesSeg (renameOver paths .idxTmp .idx) :=
  (Only.step ⟨by decide, by decide⟩).context

/-- What follows the first rename leaves the segment alone. -/
theorem afterRename_only (layout : SegmentLayout) (beforeSeg beforeIdx : Nat) :
    Only Op.SparesSeg (do
      renameOver paths .idxTmp .idx
      syncParentDir paths
      syncParentDir paths
      finish paths false true layout beforeSeg beforeIdx) :=
  renameIdx_only.bind fun _ => (syncParentDir_only.mono sparesSeg_of_looks).bind fun _ =>
    (syncParentDir_only.mono sparesSeg_of_looks).bind fun _ =>
    (finish_only _ _ _ _ _).mono sparesSeg_of_looks

/-- A rewrite that stops after the first rename leaves the records of the layout. -/
theorem rewriteSegment_eq_error (lossless : codecs.Lossless) {world after : World File}
    {layout : SegmentLayout} {beforeSeg beforeIdx : Nat} {stop : Stop} (fresh : Fresh world)
    (run : rewriteSegment codecs paths layout beforeSeg beforeIdx world = (.error stop, after))
    (replaced : ¬ Fresh after) : CompactedOn codecs after.files layout.records := by
  rcases Fs.bind_eq_error.mp run with write | ⟨_, world₁, write, rest⟩
  · exact absurd (fresh.of_only (writeTmps_only layout) write) replaced
  · have fresh₁ := fresh.of_only (writeTmps_only layout) write
    obtain ⟨seg, blocks, entries, segTmp, idxTmp, compacted, same⟩ := writeTmps_eq_ok lossless write
    rcases Fs.bind_eq_error.mp rest with rename | ⟨_, world₂, rename, rest⟩
    · obtain ⟨_, rename⟩ := Fs.context_eq_error rename
      exact absurd (fresh₁.of_step_error rename) replaced
    · obtain ⟨_, _, _, rfl⟩ := Fs.step_eq_ok.mp (Fs.context_eq_ok.mp rename)
      refine CompactedOn.of_only (afterRename_only layout beforeSeg beforeIdx) rest
        ⟨seg, blocks, entries, ?_, compacted, same⟩
      simpa [Op.apply, Function.update_of_ne] using segTmp

/-! ### Keeping the segment -/

/-- Replacing the index spares the segment. -/
theorem replaceIdx_only (entries : List IdxEntry) : Only Op.SparesSeg (replaceIdx paths entries) :=
  ((removeFileIfExists_only (.inr rfl)).mono sparesSeg_of_onTmps).bind fun _ =>
    ((writeIdxTmp_only entries).mono sparesSeg_of_onTmps).bind fun _ =>
    renameIdx_only.bind fun _ => syncParentDir_only.mono sparesSeg_of_looks

/-- Repairing the index spares the segment. -/
theorem ensureIdxConsistentOrRebuild_only (entries : List IdxEntry) :
    Only Op.SparesSeg (ensureIdxConsistentOrRebuild paths entries) := by
  refine ((idxMatches_only entries).mono sparesSeg_of_looks).bind fun same => ?_
  cases same with
  | true => exact .pure _
  | false => exact (replaceIdx_only entries).bind fun _ => .pure _

/-- What follows the truncation leaves the segment alone. -/
theorem afterTruncate_only (layout : SegmentLayout) (beforeSeg beforeIdx : Nat) :
    Only Op.SparesSeg (do
      let rebuilt ← ensureIdxConsistentOrRebuild paths layout.idxEntries
      finish paths true rebuilt layout beforeSeg beforeIdx) :=
  (ensureIdxConsistentOrRebuild_only _).bind fun _ =>
    (finish_only _ _ _ _ _).mono sparesSeg_of_looks

/-- A truncation that stops has not begun, or the tail is gone. -/
theorem truncateTail_eq_error {world after : World File} {seg : Bytes} {validLen : Nat}
    {stop : Stop} (fresh : Fresh world) (present : world.files .seg = some seg)
    (inside : validLen ≤ seg.length)
    (run : truncateTail paths (tailAt seg validLen) world = (.error stop, after)) :
    Fresh after ∨ after.files .seg = some (seg.take validLen) := by
  unfold tailAt at run
  split at run
  · rcases Fs.bind_eq_error.mp run with opened | ⟨_, world₁, opened, rest⟩
    · left
      exact fresh.of_only ((Only.openFile .seg looks_observe).context.mono onTmps_of_looks) opened
    · have fresh₁ : Fresh world₁ :=
        fresh.of_only ((Only.openFile .seg looks_observe).context.mono onTmps_of_looks) opened
      have same := (Fs.openFile_eq_ok (Fs.context_eq_ok.mp opened)).2
      rcases Fs.bind_eq_error.mp rest with cut | ⟨_, world₂, cut, sync⟩
      · obtain ⟨_, cut⟩ := Fs.context_eq_error cut
        exact .inl (fresh₁.of_step_error cut)
      · obtain ⟨_, _, _, rfl⟩ := Fs.step_eq_ok.mp (Fs.context_eq_ok.mp cut)
        right
        have spared : Only (fun op : Op File => op.Spares .seg) (Fs.step (.sync File.seg)) :=
          Only.step trivial
        rw [spared.context.files_eq sync fun _ apart => apart]
        simp only [Op.apply, Function.update_self, same, present, Option.map_some,
          resize_of_le inside]
  · cases run

/-- A call that keeps a segment and stops after the truncation leaves the blocks in front. -/
theorem keepSegment_eq_error {world after : World File} {seg : Bytes} {blocks : List SegmentBlock}
    {validLen beforeSeg beforeIdx : Nat} {layout : SegmentLayout} {stop : Stop}
    (fresh : Fresh world) (present : world.files .seg = some seg)
    (walk : Walk codecs seg 0 blocks validLen) (columnar : layout.hasRowBlocks = false)
    (read : layoutOf codecs seg blocks validLen = .ok layout)
    (run : keepSegment paths layout beforeSeg beforeIdx world = (.error stop, after))
    (replaced : ¬ Fresh after) : CompactedOn codecs after.files (recordsOf blocks) := by
  obtain ⟨entries, located, built⟩ := Foundation.bind_eq_ok.mp read
  cases built
  have inside := (walk.le_length (Nat.zero_le _)).2
  have compacted : Compacted codecs (seg.take validLen) blocks entries :=
    ⟨walk.take, hasRow_eq_false.mp columnar, located⟩
  rcases Fs.bind_eq_error.mp run with truncate | ⟨_, world₁, truncate, rest⟩
  · rcases truncateTail_eq_error fresh present inside truncate with fresh | shortened
    · exact absurd fresh replaced
    · exact ⟨_, blocks, entries, shortened, compacted, rfl⟩
  · obtain ⟨shortened, -⟩ := truncateTail_eq_ok present inside truncate
    exact CompactedOn.of_only (afterTruncate_only _ _ _) rest
      ⟨_, blocks, entries, shortened, compacted, rfl⟩

/-- How many of the intact blocks a call reads. Six operations come before the first block, and
a read that fails is the last one. -/
def blocksRead (cut : Cut) (blocks : List SegmentBlock) : Nat :=
  (cut.passed 6).smooth blocks.length

/-- **Where a call can stop.** Nothing has been replaced, or the segment is compacted and has the
records that were read. -/
theorem recompactSegmentInner_eq_error (lossless : codecs.Lossless) {world after : World File}
    {seg : Bytes} {blocks : List SegmentBlock} {validLen : Nat} {stop : Stop}
    (fresh : Fresh world) (present : world.files .seg = some seg)
    (maximal : MaximalWalk codecs seg blocks validLen)
    (run : recompactSegmentInner codecs paths world = (.error stop, after))
    (replaced : ¬ Fresh after) :
    CompactedOn codecs after.files (recordsOf (blocks.take (blocksRead world.cut blocks))) := by
  have looks : Only Op.OnTmps (inspectSegment codecs paths) :=
    inspectSegment_only.mono onTmps_of_looks
  rcases Fs.bind_eq_error.mp run with measure | ⟨sizes, world₁, measure, rest⟩
  · exact absurd (fresh.of_only measureFiles_only measure) replaced
  · have fresh₁ := fresh.of_only measureFiles_only measure
    have seg₁ := measureFiles_only.files_eq measure fun _ tmps => (Op.OnTmps.spares tmps).1
    rcases Fs.bind_eq_error.mp rest with inspect | ⟨layout, world₂, inspect, branch⟩
    · exact absurd (fresh₁.of_only looks inspect) replaced
    · have fresh₂ := fresh₁.of_only looks inspect
      have seg₂ := looks.files_eq inspect fun _ tmps => (Op.OnTmps.spares tmps).1
      obtain ⟨last, walk, -, read⟩ :=
        (inspectSegment_eq_ok (seg₁.trans present) maximal inspect).1
      rw [measureFiles_costs _ _ _ measure, Cut.passed_passed] at walk read
      split at branch
      · obtain ⟨_, _, built⟩ := Foundation.bind_eq_ok.mp read
        cases built
        exact rewriteSegment_eq_error lossless fresh₂ branch replaced
      · next columnar =>
          exact keepSegment_eq_error fresh₂ (seg₂.trans (seg₁.trans present)) walk
            (Bool.not_eq_true _ ▸ columnar) read branch replaced

/-- Before it reports an error, a call removes the temporary files. -/
theorem recompactSegment_eq_error {world after : World File} {stop : Stop}
    (run : recompactSegment codecs paths world = (.error stop, after)) :
    ∃ inner between, recompactSegmentInner codecs paths world = (.error inner, between) ∧
      after.files .seg = between.files .seg ∧ (Fresh between → Fresh after) := by
  rcases Fs.bind_eq_error.mp run with crashed | ⟨tried, between, tried', rest⟩
  · refine ⟨.crashed, after, ?_, rfl, id⟩
    unfold Fs.attempt at crashed
    split at crashed
    · cases crashed
    · cases crashed
    · next here =>
        cases crashed
        exact here
  · cases tried with
    | ok outcome => cases rest
    | error err =>
        have cleanup : Only Op.OnTmps _ := removeTmps_only (α := RecompactOutcome) err
        refine ⟨.failed err, between, ?_, cleanup.files_eq rest fun _ tmps => tmps.spares.1,
          fun fresh => fresh.of_only cleanup rest⟩
        unfold Fs.attempt at tried'
        split at tried'
        · cases tried'
        · next here =>
            cases tried'
            exact here
        · cases tried'

/-! ## Files that were not replaced -/

/-- An operation of a recompaction. -/
def Op.Recompacts (op : Op File) : Prop := Op.OnTmps op ∨ Op.Replaces op

/-- Work on the temporary files is part of a recompaction. -/
theorem recompacts_of_onTmps (op : Op File) (tmps : Op.OnTmps op) : Op.Recompacts op := .inl tmps

/-- Looking is part of a recompaction. -/
theorem recompacts_of_looks (op : Op File) (looks : Op.Looks op) : Op.Recompacts op :=
  .inl (onTmps_of_looks op looks)

/-- A rename is part of a recompaction. -/
theorem renameOver_only (source target : File) :
    Only Op.Recompacts (renameOver paths source target) :=
  (Only.step (.inr trivial)).context

/-- The rewrite of a segment recompacts, and does nothing else. -/
theorem rewriteSegment_only (layout : SegmentLayout) (beforeSeg beforeIdx : Nat) :
    Only Op.Recompacts (rewriteSegment codecs paths layout beforeSeg beforeIdx) :=
  ((writeTmps_only layout).mono recompacts_of_onTmps).bind fun _ =>
    (renameOver_only _ _).bind fun _ => (renameOver_only _ _).bind fun _ =>
    (syncParentDir_only.mono recompacts_of_looks).bind fun _ =>
    (syncParentDir_only.mono recompacts_of_looks).bind fun _ =>
    (finish_only _ _ _ _ _).mono recompacts_of_looks

/-- The cut of a tail recompacts, and does nothing else. -/
theorem truncateTail_only (tail : Option SegmentTornTail) :
    Only Op.Recompacts (truncateTail paths tail) := by
  cases tail with
  | none => exact .pure _
  | some tail =>
      have looks : Op.Recompacts (.observe : Op File) := .inl trivial
      refine (Only.openFile File.seg looks).context.bind fun _ => Only.bind ?_ fun _ => ?_
      · exact (Only.step (Or.inr trivial)).context
      · exact (Only.step (Or.inl trivial)).context

/-- The repair of an index recompacts, and does nothing else. -/
theorem rebuildIdx_only (entries : List IdxEntry) :
    Only Op.Recompacts (ensureIdxConsistentOrRebuild paths entries) := by
  refine ((idxMatches_only entries).mono recompacts_of_looks).bind fun same => ?_
  cases same with
  | true => exact .pure _
  | false =>
      refine Only.bind ?_ fun _ => .pure _
      exact ((removeFileIfExists_only (.inr rfl)).mono recompacts_of_onTmps).bind fun _ =>
        ((writeIdxTmp_only entries).mono recompacts_of_onTmps).bind fun _ =>
        (renameOver_only _ _).bind fun _ => syncParentDir_only.mono recompacts_of_looks

/-- **A recompaction** does nothing else. -/
theorem recompactSegment_only : Only Op.Recompacts (recompactSegment codecs paths) := by
  have inner : Only Op.Recompacts (recompactSegmentInner codecs paths) := by
    refine (measureFiles_only.mono recompacts_of_onTmps).bind fun sizes => ?_
    refine (inspectSegment_only.mono recompacts_of_looks).bind fun layout => ?_
    show Only _ (if _ then _ else _)
    split
    · exact rewriteSegment_only _ _ _
    · exact (truncateTail_only _).bind fun _ => (rebuildIdx_only _).bind fun _ =>
        (finish_only _ _ _ _ _).mono recompacts_of_looks
  refine inner.attempt.bind fun tried => ?_
  cases tried with
  | ok outcome => exact .pure _
  | error err => exact (removeTmps_only err).mono recompacts_of_onTmps

/-- Before the first replacement both files are as they were. -/
theorem recompactSegment_fresh {files : Files File} {cut : Cut} {after : World File}
    {result : Except Stop RecompactOutcome}
    (run : recompactSegment codecs paths ⟨files, cut, []⟩ = (result, after)) (fresh : Fresh after) :
    after.files .seg = files .seg ∧ after.files .idx = files .idx := by
  have apart : ∀ op ∈ after.log, op.Spares .seg ∧ op.Spares .idx := by
    intro op done
    rcases recompactSegment_only.allowed_of_mem_log run done with before | tmps | replaces
    · simp at before
    · exact tmps.spares
    · exact absurd replaces (fresh op done)
  have failing : ∀ op, Op.Recompacts op → op.SparesFailing File.seg ∧
    op.SparesFailing File.idx := by
    rintro op (tmps | replaces)
    · exact ⟨tmps.spares.1.failing, tmps.spares.2.failing⟩
    · cases op with
      | rename _ _ | setLen _ _ => exact ⟨fun _ _ => rfl, fun _ _ => rfl⟩
      | observe | sync _ | remove _ | create _ | touch _ | write _ _ => exact replaces.elim
  exact ⟨recompactSegment_only.files_eq_of_log run (fun op here => (failing op here).1)
      fun op done => (apart op done).1,
    recompactSegment_only.files_eq_of_log run (fun op here => (failing op here).2)
      fun op done => (apart op done).2⟩

/-- Stale temporary files make no difference. -/
theorem recompactSegmentInner_congr {files other : Files File} (seg : other .seg = files .seg)
    (idx : other .idx = files .idx) :
    recompactSegmentInner codecs paths ⟨other, .never, []⟩ =
      recompactSegmentInner codecs paths ⟨files, .never, []⟩ := by
  have cleared : ∀ files : Files File, measureFiles paths ⟨files, .never, []⟩ =
      (do
        let beforeSegBytes ← Fs.context s!"stat segment {paths.seg}" (metadataLen .seg)
        let beforeIdxBytes ← fileLenOrZero paths .idx
        pure (beforeSegBytes, beforeIdxBytes))
        ⟨(Op.remove File.idxTmp).apply ((Op.remove File.segTmp).apply files), .never,
          [.remove .segTmp, .remove .idxTmp]⟩ := fun _ => rfl
  have same : (Op.remove File.idxTmp).apply ((Op.remove File.segTmp).apply other) =
      (Op.remove File.idxTmp).apply ((Op.remove File.segTmp).apply files) := by
    funext path
    cases path with
    | seg => simpa [Op.apply, Function.update_of_ne] using seg
    | idx => simpa [Op.apply, Function.update_of_ne] using idx
    | segTmp | idxTmp => simp [Op.apply]
  have measure : measureFiles paths ⟨other, .never, []⟩ = measureFiles paths
    ⟨files, .never, []⟩ := by
    rw [cleared, cleared, same]
  unfold recompactSegmentInner
  rcases run : measureFiles paths ⟨files, .never, []⟩ with ⟨stop | sizes, world⟩
  · rw [Fs.bind_of_error run, Fs.bind_of_error (measure.trans run)]
  · rw [Fs.bind_of_ok run, Fs.bind_of_ok (measure.trans run)]

/-- The contents of a file. File lengths are signed 64-bit numbers. -/
def FileBytes : Type := { bytes : Bytes // bytes.length < 2 ^ 63 }

/-- What the two files are to be after a call on `files` that was cut short: the segment has the
records it had; before the first rename or truncation both files are untouched; and if the call
would have succeeded uncut, another one does, and leaves the same records with an index whose
entries locate them. -/
structure Atomic (codecs : Codecs) (paths : Paths) (files : Files File) (seg : Bytes)
    (after : World File) : Prop where
  records : ∃ newSeg, after.files .seg = some newSeg ∧
    readSegmentRecords codecs newSeg = readSegmentRecords codecs seg
  untouched : Fresh after → after.files .seg = files .seg ∧ after.files .idx = files .idx
  heals : ∀ outcome later,
    recompactSegment codecs paths ⟨files, .never, []⟩ = (.ok outcome, later) →
    ∃ outcome' healed newSeg newIdx records entries,
      recompactSegment codecs paths ⟨after.files, .never, []⟩ = (.ok outcome', healed) ∧
      healed.files .seg = some newSeg ∧ healed.files .idx = some newIdx ∧
      readSegmentRecords codecs seg = .ok records ∧
      readSegmentRecords codecs newSeg = .ok records ∧
      parseIdxEntries newIdx = some entries ∧
      List.Forall₂ (Resolves codecs newSeg) records entries

/-- An untouched pair of files is healed by the call itself. -/
theorem atomic_of_untouched (lossless : codecs.Lossless) {files : Files File} {seg : Bytes}
    {blocks : List SegmentBlock} {validLen : Nat} {after : World File}
    (present : files .seg = some seg) (maximal : MaximalWalk codecs seg blocks validLen)
    (before : readSegmentRecords codecs seg = .ok (recordsOf blocks))
    (same : after.files .seg = files .seg ∧ after.files .idx = files .idx) :
    Atomic codecs paths files seg after where
  records := ⟨seg, same.1.trans present, rfl⟩
  untouched _ := same
  heals outcome later uncut := by
    have again := recompactSegment_eq_ok.mp uncut
    rw [← recompactSegmentInner_congr same.1 same.2] at again
    have here : (World.mk after.files .never []).files .seg = some seg := same.1.trans present
    obtain ⟨newSeg, newBlocks, entries, segNow, compact, records, indexes⟩ :=
      (recompactSegmentInner_eq_ok lossless here rfl maximal again).1
    obtain ⟨newIdx, idxNow, parsed⟩ := Option.bind_eq_some_iff.mp indexes
    refine ⟨outcome, later, newSeg, newIdx, recordsOf blocks, entries,
      recompactSegment_eq_ok.mpr again, segNow, idxNow, before, ?_, parsed, ?_⟩
    · rw [readSegmentRecords_of_walk compact.walk, records]
    · rw [← records]
      exact layoutEntries_resolve compact.walk compact.entries

/-- A compacted segment is healed by a call that makes its index. -/
theorem atomic_of_compacted {files : Files File} {seg : Bytes} {records : List Bytes}
    {after : World File} (compacted : CompactedOn codecs after.files records)
    (before : readSegmentRecords codecs seg = .ok records)
    (untouched : Fresh after → after.files .seg = files .seg ∧ after.files .idx = files .idx) :
    Atomic codecs paths files seg after := by
  obtain ⟨newSeg, newBlocks, entries, here, compact, rfl⟩ := compacted
  refine ⟨⟨newSeg, here, ?_⟩, untouched, ?_⟩
  · rw [before, readSegmentRecords_of_walk compact.walk]
  · intro outcome later _
    obtain ⟨outcome', healed, runs, -, segNow, indexes, -⟩ :=
      recompactSegment_of_compacted paths here compact
    obtain ⟨log, run⟩ := runs []
    obtain ⟨newIdx, idxNow, parsed⟩ := Option.bind_eq_some_iff.mp indexes
    exact ⟨outcome', _, newSeg, newIdx, recordsOf newBlocks, entries, run, segNow, idxNow, before,
      readSegmentRecords_of_walk compact.walk, parsed,
      layoutEntries_resolve compact.walk compact.entries⟩

/-- The records of the blocks in front are all the records if there are none behind. -/
theorem recordsOf_take_eq_iff (blocks : List SegmentBlock) (count : Nat) :
    recordsOf (blocks.take count) = recordsOf blocks ↔ recordsOf (blocks.drop count) = [] := by
  have split : recordsOf blocks =
      recordsOf (blocks.take count) ++ recordsOf (blocks.drop count) := by
    rw [recordsOf, recordsOf, recordsOf, ← List.flatMap_append, List.take_append_drop]
  rw [split]
  exact List.self_eq_append_right

/-- **When recompaction is atomic.** A call on a well-framed segment is cut short, by a crash or by
an error, after any number of failed operations. The files are as they are to be exactly if the
call had not renamed or truncated anything yet, or the blocks that it read before the first
failing read have all the records: unless the read of an intact block fails, it read them all. -/
theorem recompactSegment_interrupted (codecs : Codecs) (lossless : codecs.Lossless) (paths : Paths)
    (seg : FileBytes) (framed : WellFramed codecs seg.val) (blocks : List SegmentBlock)
    (validLen : Nat) (maximal : MaximalWalk codecs seg.val blocks validLen) (files : Files File)
    (present : files .seg = some seg.val) (cut : Cut) (stop : Stop) (after : World File)
    (run : recompactSegment codecs paths ⟨files, cut, []⟩ = (.error stop, after)) :
    Atomic codecs paths files seg.val after ↔
      Fresh after ∨ recordsOf (blocks.drop (blocksRead cut blocks)) = [] := by
  have before := readSegmentRecords_eq seg.property framed maximal
  have untouched := recompactSegment_fresh run
  obtain ⟨inner, between, innerRun, same, stays⟩ := recompactSegment_eq_error run
  have compacted : ¬ Fresh after →
      CompactedOn codecs after.files (recordsOf (blocks.take (blocksRead cut blocks))) := by
    intro replaced
    have fresh : Fresh ⟨files, cut, []⟩ := by simp [Fresh]
    obtain ⟨newSeg, newBlocks, entries, here, rest⟩ :=
      recompactSegmentInner_eq_error lossless fresh present maximal innerRun (mt stays replaced)
    exact ⟨newSeg, newBlocks, entries, same.trans here, rest⟩
  by_cases fresh : Fresh after
  · have atomic : Atomic codecs paths files seg.val after :=
      atomic_of_untouched lossless present maximal before (untouched fresh)
    exact ⟨fun _ => .inl fresh, fun _ => atomic⟩
  · constructor
    · intro atomic
      right
      obtain ⟨newSeg, here, reads⟩ := atomic.records
      obtain ⟨newSeg', newBlocks, entries, here', compact, records⟩ := compacted fresh
      rw [here, Option.some.injEq] at here'
      subst here'
      rw [before, readSegmentRecords_of_walk compact.walk, records, Except.ok.injEq] at reads
      exact (recordsOf_take_eq_iff _ _).mp reads
    · rintro (still | none)
      · exact absurd still fresh
      · rw [(recordsOf_take_eq_iff _ _).mpr none] at compacted
        exact atomic_of_compacted (compacted fresh) before untouched

/-- The short segment has one block, and behind it a torn header. -/
theorem shortSegment_maximal :
    ∃ block, MaximalWalk shortCodecs shortSegment [block] 38 ∧
      WellFramed shortCodecs shortSegment := by
  have offset : (readSegmentBlock shortCodecs shortSegment 0 true).toOption.join.map
      SegmentBlock.nextOff = some 38 := by decide +kernel
  have length : shortSegment.length = 41 := by decide +kernel
  rcases read : readSegmentBlock shortCodecs shortSegment 0 true with err | (_ | block)
  · rw [read] at offset
    cases offset
  · rw [read] at offset
    cases offset
  · rw [read] at offset
    have next : block.nextOff = 38 := Option.some.inj offset
    have short : ∀ header nextOff, ¬ HeaderAt shortSegment 38 header nextOff := by
      intro header nextOff head
      have whole := head.whole
      rw [length] at whole
      exact absurd whole (by decide)
    have walk : Walk shortCodecs shortSegment 0 [block] 38 :=
      .step read (by rw [next]; exact .done 38)
    have maximal : MaximalWalk shortCodecs shortSegment [block] 38 := by
      refine ⟨walk, ?_⟩
      intro other found
      obtain ⟨_, _, framed, -⟩ := readSegmentBlock_eq_some.mp found
      exact short _ _ framed.head
    exact ⟨block, maximal, wellFramed_of_maximal maximal short⟩

/-- The second rename fails, then the removal of a temporary file, and then the process crashes. -/
def shortCut : Cut := .fail 21 0 (.fail 0 0 (.crash 0))

set_option maxRecDepth 20000 in
/-- After two failures and a crash behind the first rename, the records are there, and another
call makes the index. -/
theorem recompactSegment_interrupted_short :
    ∃ stop after, recompactSegment shortCodecs shortPaths ⟨shortFiles, shortCut, []⟩ =
        (.error stop, after) ∧ ¬ Fresh after ∧
      (recompactSegment shortCodecs shortPaths ⟨shortFiles, .never, []⟩).1.toOption.isSome ∧
      Atomic shortCodecs shortPaths shortFiles shortSegment after := by
  have length : shortSegment.length < 2 ^ 63 := by decide +kernel
  have uncut : (recompactSegment shortCodecs shortPaths
    ⟨shortFiles, .never, []⟩).1.toOption.isSome := by
    decide +kernel
  have cut :
      (recompactSegment shortCodecs shortPaths ⟨shortFiles, shortCut, []⟩).1.toOption.isNone ∧
      ((recompactSegment shortCodecs shortPaths ⟨shortFiles, shortCut, []⟩).2.files .seg).map
        List.length ≠ some 41 := by
    decide +kernel
  obtain ⟨block, maximal, framed⟩ := shortSegment_maximal
  rcases run : recompactSegment shortCodecs shortPaths ⟨shortFiles, shortCut, []⟩ with
    ⟨stop | outcome, after⟩
  · rw [run] at cut
    have replaced : ¬ Fresh after := by
      intro fresh
      apply cut.2
      rw [(recompactSegment_fresh run fresh).1]
      decide +kernel
    exact ⟨stop, after, rfl, replaced, uncut,
      (recompactSegment_interrupted shortCodecs (storedCodecs_lossless _) shortPaths
        ⟨shortSegment, length⟩ framed [block] 38 maximal shortFiles rfl shortCut stop after
        run).mpr (.inr rfl)⟩
  · rw [run] at cut
    cases cut.1

set_option maxRecDepth 20000 in
/-- The read of the block fails and counts as a torn tail, and a crash follows the truncation: the
segment is empty. -/
theorem recompactSegment_read_fault :
    ∃ stop after, recompactSegment shortCodecs shortPaths
        ⟨shortFiles, .fail 6 0 (.crash 3), []⟩ = (.error stop, after) ∧
      after.files .seg = some [] ∧
      (readSegmentRecords shortCodecs shortSegment).toOption = some [shortRecord.encodeToVec] ∧
      ¬ Atomic shortCodecs shortPaths shortFiles shortSegment after := by
  have cut : (recompactSegment shortCodecs shortPaths
      ⟨shortFiles, .fail 6 0 (.crash 3), []⟩).1.toOption.isNone ∧
    (recompactSegment shortCodecs shortPaths
      ⟨shortFiles, .fail 6 0 (.crash 3), []⟩).2.files .seg = some [] := by decide +kernel
  have one : (readSegmentRecords shortCodecs shortSegment).toOption =
      some [shortRecord.encodeToVec] := by decide +kernel
  rcases run : recompactSegment shortCodecs shortPaths ⟨shortFiles, .fail 6 0 (.crash 3), []⟩ with
    ⟨stop | outcome, after⟩
  · rw [run] at cut
    refine ⟨stop, after, rfl, cut.2, one, fun atomic => ?_⟩
    obtain ⟨newSeg, here, reads⟩ := atomic.records
    rw [cut.2, Option.some.injEq] at here
    subst here
    rw [← reads] at one
    cases one
  · rw [run] at cut
    cases cut.1

end LolCrawler.Segment
