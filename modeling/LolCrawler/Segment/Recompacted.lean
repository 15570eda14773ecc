import LolCrawler.Segment.Rewrite

/-! # What recompaction guarantees

A call that returns leaves a compacted segment with the records of the old
segment's maximal walk, and an index that locates each of them; a second call
changes nothing (`recompactSegment_preserves`).
-/

namespace LolCrawler.Segment

open Foundation

variable {codecs : Codecs} {paths : Paths}

/-! ## Inspection -/

/-- An operation on the temporary files only. -/
def Op.OnTmps : Op File → Prop
  | .observe | .sync _ => True
  | .remove path | .create path | .write path _ => path = .segTmp ∨ path = .idxTmp
  | .touch _ | .setLen _ _ | .rename _ _ => False

/-- The segment and its index are spared. -/
theorem Op.OnTmps.spares {op : Op File} (onTmps : Op.OnTmps op) :
    op.Spares .seg ∧ op.Spares .idx := by
  cases op with
  | observe | sync _ => exact ⟨trivial, trivial⟩
  | remove path | create path | write path _ => rcases onTmps with rfl | rfl <;> simp [Op.Spares]
  | touch _ | setLen _ _ | rename _ _ => exact onTmps.elim

/-- Looking works on no file. -/
theorem onTmps_of_looks (op : Op File) (looks : Op.Looks op) : Op.OnTmps op := by
  rw [show op = .observe from looks]
  trivial

/-- Measuring a file only looks. -/
theorem fileLenOrZero_only (path : File) : Only Op.Looks (fileLenOrZero paths path) :=
  (Only.read path looks_observe).context.bind fun _ => .pure _

/-- Reading the size of a file only looks. -/
theorem metadataLen_only (path : File) : Only Op.Looks (metadataLen path) :=
  (Only.openFile path looks_observe).bind fun _ => .pure _

/-- Removing a temporary file works on it alone. -/
theorem removeFileIfExists_only {path : File} (tmp : path = .segTmp ∨ path = .idxTmp) :
    Only Op.OnTmps (removeFileIfExists paths path) :=
  (Only.step tmp).context

/-- The check of a torn tail only looks. -/
theorem ensureTornTailUnindexed_only (tail : SegmentTornTail) :
    Only Op.Looks (ensureTornTailUnindexed paths tail) := by
  refine (Only.read .idx looks_observe).context.bind fun found => ?_
  cases found with
  | none => exact .pure _
  | some bytes => exact .lift _

/-- So does the check if there is a tail or none. -/
theorem ensureTailUnindexed_only (tail : Option SegmentTornTail) :
    Only Op.Looks (ensureTailUnindexed paths tail) := by
  cases tail with
  | none => exact .pure _
  | some tail => exact ensureTornTailUnindexed_only tail

/-- Measuring the segment clears the temporary files. -/
theorem measureFiles_only : Only Op.OnTmps (measureFiles paths) :=
  (removeFileIfExists_only (.inl rfl)).bind fun _ =>
    (removeFileIfExists_only (.inr rfl)).bind fun _ =>
    ((metadataLen_only _).mono onTmps_of_looks).context.bind fun _ =>
    ((fileLenOrZero_only _).mono onTmps_of_looks).bind fun _ => .pure _

/-- The inspection only looks. -/
theorem inspectSegment_only : Only Op.Looks (inspectSegment codecs paths) :=
  (readSegmentLayoutIo_only _ _ _).bind fun _ => (ensureTailUnindexed_only _).bind fun _ => .pure _

/-- The index has no entry at or behind the tail. -/
def Unindexed (idx : Option Bytes) (validLen : Nat) : Prop :=
  ∀ bytes, idx = some bytes → ∃ entries, parseIdxEntries bytes = some entries ∧
    ∀ entry ∈ entries, entry.blockOff.toNat < validLen

/-- A tail that passes its check has an index before it. -/
theorem checkTornTail_eq_ok {idxPath : String} {tail : SegmentTornTail} {bytes : Bytes}
    (checked : checkTornTail idxPath tail bytes = .ok ()) :
    ∃ entries, parseIdxEntries bytes = some entries ∧
      ∀ entry ∈ entries, entry.blockOff.toNat < tail.validLen := by
  obtain ⟨_, whole, rest⟩ := Foundation.bind_eq_ok.mp checked
  have formed : bytes.length % idxEntryLen = 0 := of_decide_eq_true (ensure_eq_ok.mp whole)
  have parsed : parseIdxEntries bytes =
      some (idxChunks (bytes.length / idxEntryLen) bytes) := by
    rw [parseIdxEntries, if_neg (not_not.mpr formed)]
  refine ⟨_, parsed, ?_⟩
  intro entry inside
  rw [parsed, Option.getD_some] at rest
  split at rest
  · next none =>
      have apart := List.find?_eq_none.mp none entry inside
      simpa using apart
  · cases rest

/-- A tail that passes its check is not indexed. -/
theorem ensureTailUnindexed_eq_ok {tail : SegmentTornTail} {world after : World File}
    (run : ensureTailUnindexed paths (some tail) world = (.ok (), after)) :
    Unindexed (world.files .idx) tail.validLen := by
  obtain ⟨found, _, first, rest⟩ := Fs.bind_eq_ok.mp run
  obtain ⟨rfl, -⟩ := Fs.read_eq_ok (Fs.context_eq_ok.mp first)
  intro bytes present
  rw [present] at rest
  exact checkTornTail_eq_ok (Fs.lift_eq_ok.mp rest).1

/-- Measuring the segment costs four operations. -/
theorem measureFiles_costs : Costs (measureFiles paths) 4 :=
  (Costs.step _).context.bind fun _ => (Costs.step _).context.bind fun _ =>
    ((Costs.openFile _).bind fun _ => .pure _).context.bind fun _ =>
    ((Costs.read _).context.bind fun _ => .pure _).bind fun _ => .pure _

/-- What inspection returns: the layout of the blocks in front of the first read that fails,
and a tail that is not indexed. -/
theorem inspectSegment_eq_ok {world after : World File} {layout : SegmentLayout} {seg : Bytes}
    {blocks : List SegmentBlock} {stop : Nat} (present : world.files .seg = some seg)
    (maximal : MaximalWalk codecs seg blocks stop)
    (run : inspectSegment codecs paths world = (.ok layout, after)) :
    FrontLayout codecs seg 0 blocks stop ((world.cut.passed 2).smooth blocks.length) layout ∧
      ∀ tail, layout.tornTail = some tail → Unindexed (world.files .idx) tail.validLen := by
  obtain ⟨found, between, read, rest⟩ := Fs.bind_eq_ok.mp run
  obtain ⟨_, _, unindexed, done⟩ := Fs.bind_eq_ok.mp rest
  obtain ⟨rfl, rfl⟩ := Fs.pure_eq_ok.mp done
  have kept : between.files .idx = world.files .idx :=
    (readSegmentLayoutIo_only codecs paths .seg).files_eq read fun _ looks => looks.spares _
  refine ⟨readSegmentLayoutIo_eq_ok present maximal read, ?_⟩
  intro tail torn
  rw [torn] at unindexed
  rw [← kept]
  exact ensureTailUnindexed_eq_ok unindexed

/-! ## The two branches -/

/-- The tail is cut off, and the index stays. -/
theorem truncateTail_eq_ok {world after : World File} {seg : Bytes} {stop : Nat}
    (present : world.files .seg = some seg) (inside : stop ≤ seg.length)
    (run : truncateTail paths (tailAt seg stop) world = (.ok (), after)) :
    after.files .seg = some (seg.take stop) ∧ after.files .idx = world.files .idx := by
  unfold tailAt at run
  split at run
  · obtain ⟨_, between, opened, rest⟩ := Fs.bind_eq_ok.mp run
    obtain ⟨_, _, cut, sync⟩ := Fs.bind_eq_ok.mp rest
    have same := (Fs.openFile_eq_ok (Fs.context_eq_ok.mp opened)).2
    obtain ⟨_, _, _, rfl⟩ := Fs.step_eq_ok.mp (Fs.context_eq_ok.mp cut)
    obtain ⟨_, _, _, rfl⟩ := Fs.step_eq_ok.mp (Fs.context_eq_ok.mp sync)
    constructor
    · simp only [Op.apply, Function.update_self, same, present, Option.map_some,
        resize_of_le inside]
    · simp only [Op.apply, same]
      rw [Function.update_of_ne (by decide)]
  · obtain ⟨-, rfl⟩ := Fs.pure_eq_ok.mp run
    rw [List.take_of_length_le (by omega)]
    exact ⟨present, rfl⟩

/-- The index is replaced, and the segment stays. -/
theorem replaceIdx_eq_ok {entries : List IdxEntry} {world after : World File}
    (run : replaceIdx paths entries world = (.ok (), after)) :
    after.files .seg = world.files .seg ∧ after.files .idx = some (idxBytes entries) := by
  obtain ⟨_, _, remove, rest₁⟩ := Fs.bind_eq_ok.mp run
  obtain ⟨_, _, write, rest₂⟩ := Fs.bind_eq_ok.mp rest₁
  obtain ⟨_, _, rename, sync⟩ := Fs.bind_eq_ok.mp rest₂
  obtain ⟨_, _, opened, synced⟩ := Fs.bind_eq_ok.mp sync
  obtain ⟨_, _, _, rfl⟩ := Fs.step_eq_ok.mp (Fs.context_eq_ok.mp remove)
  have written := writeIdxTmp_eq_ok write
  obtain ⟨_, _, _, rfl⟩ := Fs.step_eq_ok.mp (Fs.context_eq_ok.mp rename)
  obtain ⟨_, _, _, rfl⟩ := Fs.step_eq_ok.mp (Fs.context_eq_ok.mp opened)
  obtain ⟨_, _, _, rfl⟩ := Fs.step_eq_ok.mp (Fs.context_eq_ok.mp synced)
  simp [Op.apply, written, Function.update_of_ne]

/-- The index file holds exactly these entries. -/
def Indexes (idx : Option Bytes) (entries : List IdxEntry) : Prop :=
  idx.bind parseIdxEntries = some entries

/-- A written index has its entries. -/
theorem indexes_idxBytes (entries : List IdxEntry) : Indexes (some (idxBytes entries)) entries :=
  parseIdxEntries_idxBytes entries

/-- Comparing the index only looks. -/
theorem idxMatches_only (entries : List IdxEntry) : Only Op.Looks (idxMatches paths entries) := by
  refine ((Only.read .idx looks_observe).context.bind fun _ => .pure _).bind fun found => ?_
  cases found with
  | none => exact .pure _
  | some found => exact .pure _

/-- The comparison tells whether the index has the entries. -/
theorem idxMatches_eq_ok {entries : List IdxEntry} {world after : World File} {same : Bool}
    (run : idxMatches paths entries world = (.ok same, after)) :
    same = true ↔ Indexes (world.files .idx) entries := by
  obtain ⟨parsed, between, read, compared⟩ := Fs.bind_eq_ok.mp run
  obtain ⟨found, _, look, parse⟩ := Fs.bind_eq_ok.mp read
  obtain ⟨rfl, unchanged⟩ := Fs.read_eq_ok (Fs.context_eq_ok.mp look)
  obtain ⟨rfl, rfl⟩ := Fs.pure_eq_ok.mp parse
  unfold Indexes
  cases held : (world.files .idx).bind parseIdxEntries with
  | none =>
      rw [held] at compared
      simp [(Fs.pure_eq_ok.mp compared).1]
  | some parsed =>
      rw [held] at compared
      simp [(Fs.pure_eq_ok.mp compared).1]

/-- The index is repaired, and the segment stays. -/
theorem ensureIdxConsistentOrRebuild_eq_ok {entries : List IdxEntry} {world after : World File}
    {rebuilt : Bool}
    (run : ensureIdxConsistentOrRebuild paths entries world = (.ok rebuilt, after)) :
    after.files .seg = world.files .seg ∧ Indexes (after.files .idx) entries := by
  obtain ⟨same, between, compare, rest⟩ := Fs.bind_eq_ok.mp run
  have kept : ∀ path, between.files path = world.files path := fun path =>
    (idxMatches_only entries).files_eq compare fun _ looks => looks.spares path
  have matched := idxMatches_eq_ok compare
  cases same with
  | true =>
      obtain ⟨-, rfl⟩ := Fs.pure_eq_ok.mp rest
      rw [kept, kept]
      exact ⟨rfl, matched.mp rfl⟩
  | false =>
      obtain ⟨_, _, replace, done⟩ := Fs.bind_eq_ok.mp rest
      obtain ⟨-, rfl⟩ := Fs.pure_eq_ok.mp done
      obtain ⟨seg, idx⟩ := replaceIdx_eq_ok replace
      rw [seg, kept, idx]
      exact ⟨rfl, indexes_idxBytes entries⟩

/-- Syncing the directory only looks. -/
theorem syncParentDir_only : Only Op.Looks (syncParentDir paths) :=
  (Only.step looks_observe).context.bind fun _ => (Only.step looks_observe).context

/-- The end of the recompaction only looks. -/
theorem finish_only (compacted rebuilt : Bool) (layout : SegmentLayout)
    (beforeSeg beforeIdx : Nat) :
    Only Op.Looks (finish paths compacted rebuilt layout beforeSeg beforeIdx) :=
  (metadataLen_only _).bind fun _ => (fileLenOrZero_only _).bind fun _ => .pure _

/-- The outcome tells what was dropped and done. -/
theorem finish_eq_ok {compacted rebuilt : Bool} {layout : SegmentLayout} {beforeSeg beforeIdx : Nat}
    {world after : World File} {outcome : RecompactOutcome}
    (run : finish paths compacted rebuilt layout beforeSeg beforeIdx world = (.ok outcome, after)) :
    outcome.droppedTailBytes = layout.tornTail.elim 0 SegmentTornTail.droppedBytes ∧
      ∀ path, after.files path = world.files path := by
  refine ⟨?_, fun path => (finish_only _ _ _ _ _).files_eq run fun _ looks => looks.spares path⟩
  obtain ⟨_, _, _, rest⟩ := Fs.bind_eq_ok.mp run
  obtain ⟨_, _, _, done⟩ := Fs.bind_eq_ok.mp rest
  obtain ⟨rfl, -⟩ := Fs.pure_eq_ok.mp done
  rfl

/-- Nothing is left to recompact if all blocks are columnar. -/
theorem hasRow_eq_false {blocks : List SegmentBlock} :
    hasRow blocks = false ↔ ∀ block ∈ blocks, block.kind = .columnar := by
  rw [hasRow, List.any_eq_false]
  constructor
  · intro none block inside
    have := none block inside
    cases kind : block.kind with
    | row => simp [kind] at this
    | columnar => rfl
  · intro all block inside
    simp [all block inside]

/-- What a call leaves when it has read the layout right: a compacted segment and its index. -/
def Left (codecs : Codecs) (files : Files File) (records : List Bytes) : Prop :=
  ∃ seg blocks entries, files .seg = some seg ∧ Compacted codecs seg blocks entries ∧
    recordsOf blocks = records ∧ Indexes (files .idx) entries

/-- A segment that is kept loses its tail and keeps its records, with an index of them. -/
theorem keepSegment_eq_ok {world after : World File} {seg : Bytes} {blocks : List SegmentBlock}
    {stop beforeSeg beforeIdx : Nat} {layout : SegmentLayout} {outcome : RecompactOutcome}
    (present : world.files .seg = some seg) (walk : Walk codecs seg 0 blocks stop)
    (read : layoutOf codecs seg blocks stop = .ok layout) (columnar : layout.hasRowBlocks = false)
    (run : keepSegment paths layout beforeSeg beforeIdx world = (.ok outcome, after)) :
    Left codecs after.files (recordsOf blocks) ∧ outcome.droppedTailBytes = seg.length - stop := by
  obtain ⟨entries, located, built⟩ := Foundation.bind_eq_ok.mp read
  cases built
  obtain ⟨_, _, truncate, rest₁⟩ := Fs.bind_eq_ok.mp run
  obtain ⟨rebuilt, _, index, last⟩ := Fs.bind_eq_ok.mp rest₁
  have inside := (walk.le_length (Nat.zero_le _)).2
  obtain ⟨shortened, -⟩ := truncateTail_eq_ok present inside truncate
  obtain ⟨kept, indexes⟩ := ensureIdxConsistentOrRebuild_eq_ok index
  obtain ⟨dropped, same⟩ := finish_eq_ok last
  refine ⟨⟨seg.take stop, blocks, entries, ?_, ⟨walk.take, hasRow_eq_false.mp columnar,
    located⟩, rfl, ?_⟩, ?_⟩
  · rw [same, kept, shortened]
  · rwa [same]
  · rw [dropped]
    unfold tailAt
    split
    · rfl
    · show 0 = _
      omega

/-- A segment that is rewritten has its records in columnar blocks, and an index of them. -/
theorem rewriteSegment_eq_ok (lossless : codecs.Lossless) {world after : World File}
    {beforeSeg beforeIdx : Nat} {layout : SegmentLayout} {outcome : RecompactOutcome}
    (run : rewriteSegment codecs paths layout beforeSeg beforeIdx world = (.ok outcome, after)) :
    Left codecs after.files layout.records ∧
      outcome.droppedTailBytes = layout.tornTail.elim 0 SegmentTornTail.droppedBytes := by
  obtain ⟨_, _, write, rest₁⟩ := Fs.bind_eq_ok.mp run
  obtain ⟨_, _, renameSeg, rest₂⟩ := Fs.bind_eq_ok.mp rest₁
  obtain ⟨_, _, renameIdx, rest₃⟩ := Fs.bind_eq_ok.mp rest₂
  obtain ⟨_, _, syncSeg, rest₄⟩ := Fs.bind_eq_ok.mp rest₃
  obtain ⟨_, _, syncIdx, last⟩ := Fs.bind_eq_ok.mp rest₄
  obtain ⟨seg, blocks, entries, segTmp, idxTmp, compacted, records⟩ :=
    writeTmps_eq_ok lossless write
  obtain ⟨_, _, _, rfl⟩ := Fs.step_eq_ok.mp (Fs.context_eq_ok.mp renameSeg)
  obtain ⟨_, _, _, rfl⟩ := Fs.step_eq_ok.mp (Fs.context_eq_ok.mp renameIdx)
  have synced : ∀ path, _ := fun path =>
    (syncParentDir_only.files_eq syncIdx fun _ looks => looks.spares path).trans
      (syncParentDir_only.files_eq syncSeg fun _ looks => looks.spares path)
  obtain ⟨dropped, same⟩ := finish_eq_ok last
  refine ⟨⟨seg, blocks, entries, ?_, compacted, records, ?_⟩, dropped⟩
  · rw [same, synced]
    simpa [Op.apply, Function.update_of_ne] using segTmp
  · rw [same, synced]
    simp only [Op.apply, Function.update_of_ne, Function.update_self, ne_eq, reduceCtorEq,
      not_false_eq_true, idxTmp]
    exact indexes_idxBytes entries

/-- The wrapper adds nothing to a call that returns. -/
theorem recompactSegment_eq_ok {world after : World File} {outcome : RecompactOutcome} :
    recompactSegment codecs paths world = (.ok outcome, after) ↔
      recompactSegmentInner codecs paths world = (.ok outcome, after) := by
  constructor
  · intro run
    obtain ⟨tried, between, attempt, rest⟩ := Fs.bind_eq_ok.mp run
    cases tried with
    | error err =>
        obtain ⟨_, _, _, rest⟩ := Fs.bind_eq_ok.mp rest
        obtain ⟨_, _, _, failed⟩ := Fs.bind_eq_ok.mp rest
        cases failed
    | ok found =>
        obtain ⟨rfl, rfl⟩ := Fs.pure_eq_ok.mp rest
        exact Fs.attempt_eq_ok.mp attempt
  · intro run
    exact Fs.bind_eq_ok.mpr ⟨_, _, Fs.attempt_eq_ok.mpr run, rfl⟩

/-- **A call that returns.** The files hold the records of the maximal walk, compacted and
indexed, and a tail that was dropped was not indexed. -/
theorem recompactSegmentInner_eq_ok (lossless : codecs.Lossless) {world after : World File}
    {seg : Bytes} {blocks : List SegmentBlock} {stop : Nat} {outcome : RecompactOutcome}
    (present : world.files .seg = some seg) (never : world.cut = .never)
    (maximal : MaximalWalk codecs seg blocks stop)
    (run : recompactSegmentInner codecs paths world = (.ok outcome, after)) :
    Left codecs after.files (recordsOf blocks) ∧ outcome.droppedTailBytes = seg.length - stop ∧
      (stop < seg.length → Unindexed (world.files .idx) stop) := by
  obtain ⟨sizes, world₁, measure, rest⟩ := Fs.bind_eq_ok.mp run
  obtain ⟨layout, world₂, inspect, branch⟩ := Fs.bind_eq_ok.mp rest
  have seg₁ := measureFiles_only.files_eq measure fun _ tmps => (Op.OnTmps.spares tmps).1
  have idx₁ := measureFiles_only.files_eq measure fun _ tmps => (Op.OnTmps.spares tmps).2
  have seg₂ := inspectSegment_only.files_eq inspect fun _ looks => Op.Looks.spares looks .seg
  obtain ⟨⟨last, walk, whole, read⟩, unindexed⟩ :=
    inspectSegment_eq_ok (seg₁.trans present) maximal inspect
  have all : (world₁.cut.passed 2).smooth blocks.length = blocks.length := by
    rw [measureFiles_costs _ _ _ measure, never]
    rfl
  rw [all, List.take_length] at walk read
  have ends := whole all
  subst ends
  have torn : layout.tornTail = tailAt seg last ∧ layout.records = recordsOf blocks := by
    obtain ⟨_, _, built⟩ := Foundation.bind_eq_ok.mp read
    cases built
    exact ⟨rfl, rfl⟩
  have apart : last < seg.length → Unindexed (world.files .idx) last := by
    intro short
    rw [idx₁, torn.1, tailAt, if_pos short] at unindexed
    exact unindexed _ rfl
  have dropped : layout.tornTail.elim 0 SegmentTornTail.droppedBytes = seg.length - last := by
    rw [torn.1, tailAt]
    split
    · rfl
    · show 0 = _
      omega
  split at branch
  · obtain ⟨left, count⟩ := rewriteSegment_eq_ok lossless branch
    rw [torn.2] at left
    exact ⟨left, count.trans dropped, apart⟩
  · next columnar =>
      obtain ⟨left, count⟩ := keepSegment_eq_ok (seg₂.trans (seg₁.trans present)) walk read
        (Bool.not_eq_true _ ▸ columnar) branch
      exact ⟨left, count, apart⟩

/-! ## Compacted segments stay as they are -/

/-- Measuring a file runs. -/
theorem fileLenOrZero_runs (paths : Paths) (files : Files File) (path : File) :
    Runs (fileLenOrZero paths path) files ((files path).elim 0 List.length) files :=
  (Runs.read path).context.bind (.pure _)

/-- Removing a file runs. -/
theorem removeFileIfExists_runs (paths : Paths) (files : Files File) (path : File) :
    Runs (removeFileIfExists paths path) files () ((Op.remove path).apply files) :=
  (Runs.step (by simp [Op.needs])).context

/-- Measuring the segment runs, and leaves it and its index. -/
theorem measureFiles_runs (paths : Paths) {files : Files File} {seg : Bytes}
    (present : files .seg = some seg) :
    ∃ sizes after, Runs (measureFiles paths) files sizes after ∧
      after .seg = files .seg ∧ after .idx = files .idx := by
  have present' : (Op.remove .idxTmp).apply
    ((Op.remove .segTmp).apply files) File.seg = some seg := by
    simpa [Op.apply, Function.update_of_ne] using present
  refine ⟨_, _, (removeFileIfExists_runs paths files .segTmp).bind
    ((removeFileIfExists_runs paths _ .idxTmp).bind
      ((metadataLen_runs present').context.bind
        ((fileLenOrZero_runs paths _ .idx).bind (.pure _)))), ?_, ?_⟩
  · simp [Op.apply, Function.update_of_ne]
  · simp [Op.apply, Function.update_of_ne]

/-- Reading the index runs. -/
theorem readIdxEntries_runs (paths : Paths) (files : Files File) :
    Runs (readIdxEntries paths) files ((files .idx).bind parseIdxEntries) files :=
  (Runs.read File.idx).context.bind (.pure _)

/-- Comparing the index runs, and tells whether it has the entries. -/
theorem idxMatches_runs (paths : Paths) (files : Files File) (entries : List IdxEntry) :
    ∃ same, Runs (idxMatches paths entries) files same files ∧
      (same = true ↔ Indexes (files .idx) entries) := by
  have read := readIdxEntries_runs paths files
  unfold Indexes
  cases held : (files .idx).bind parseIdxEntries with
  | none =>
      rw [held] at read
      exact ⟨false, read.bind (.pure _), by simp⟩
  | some parsed =>
      rw [held] at read
      exact ⟨parsed = entries, read.bind (.pure _), by simp⟩

/-- Replacing the index runs, and leaves the segment. -/
theorem replaceIdx_runs (paths : Paths) (files : Files File) (entries : List IdxEntry) :
    ∃ after, Runs (replaceIdx paths entries) files () after ∧
      after .seg = files .seg ∧ Indexes (after .idx) entries := by
  refine ⟨_, (Runs.step (by simp [Op.needs])).context.bind
    (((Runs.step (by simp [Op.needs])).context.bind
      ((Runs.step (by simp [Op.needs, Op.apply])).bind (Runs.sync _).context)).bind
      ((Runs.step (by simp [Op.needs, Op.apply])).context.bind
        (Runs.observe.context.bind Runs.observe.context))), ?_, ?_⟩
  · simp [Op.apply, Function.update_of_ne]
  · simp only [Op.apply, Function.update_of_ne, Function.update_self, ne_eq, reduceCtorEq,
      not_false_eq_true, Option.map_some, List.nil_append]
    exact indexes_idxBytes entries

/-- Repairing the index runs, and does nothing to one that has the entries. -/
theorem ensureIdxConsistentOrRebuild_runs (paths : Paths) (files : Files File)
    (entries : List IdxEntry) :
    ∃ rebuilt after, Runs (ensureIdxConsistentOrRebuild paths entries) files rebuilt after ∧
      after .seg = files .seg ∧ Indexes (after .idx) entries ∧
      (Indexes (files .idx) entries → rebuilt = false ∧ after = files) := by
  obtain ⟨same, compare, matched⟩ := idxMatches_runs paths files entries
  cases same with
  | true =>
      exact ⟨false, files, compare.bind (.pure _), rfl, matched.mp rfl, fun _ => ⟨rfl, rfl⟩⟩
  | false =>
      obtain ⟨after, replace, seg, idx⟩ := replaceIdx_runs paths files entries
      refine ⟨true, after, compare.bind (replace.bind (.pure _)), seg, idx, ?_⟩
      intro here
      exact absurd (matched.mpr here) (by simp)

/-- The end of the recompaction runs, and changes nothing. -/
theorem finish_runs (paths : Paths) {files : Files File} {seg : Bytes}
    (present : files .seg = some seg) (compacted rebuilt : Bool) (layout : SegmentLayout)
    (beforeSeg beforeIdx : Nat) :
    ∃ outcome, Runs (finish paths compacted rebuilt layout beforeSeg beforeIdx) files
      outcome files ∧
      outcome.alreadyCompacted = compacted ∧ outcome.rebuiltIdx = rebuilt :=
  ⟨_, (metadataLen_runs present).bind ((fileLenOrZero_runs paths files .idx).bind (.pure _)),
    rfl, rfl⟩

/-- Keeping a segment without a tail. -/
theorem keepSegment_runs (paths : Paths) {files : Files File} {seg : Bytes}
    (present : files .seg = some seg) (layout : SegmentLayout) (whole : layout.tornTail = none)
    (beforeSeg beforeIdx : Nat) :
    ∃ outcome after, Runs (keepSegment paths layout beforeSeg beforeIdx) files outcome after ∧
      outcome.alreadyCompacted = true ∧ after .seg = some seg ∧
      Indexes (after .idx) layout.idxEntries ∧
      (Indexes (files .idx) layout.idxEntries → outcome.rebuiltIdx = false ∧ after = files) := by
  obtain ⟨rebuilt, after, index, seg', indexes, unchanged⟩ :=
    ensureIdxConsistentOrRebuild_runs paths files layout.idxEntries
  obtain ⟨outcome, last, compacted, rebuilt'⟩ :=
    finish_runs paths (seg'.trans present) true rebuilt layout beforeSeg beforeIdx
  refine ⟨outcome, after, ?_, compacted, seg'.trans present, indexes, ?_⟩
  · unfold keepSegment
    rw [whole]
    exact (Runs.pure ()).bind (index.bind last)
  · intro right
    exact ⟨rebuilt'.trans (unchanged right).1, (unchanged right).2⟩

/-- The layout of a compacted segment. -/
theorem Compacted.layout {seg : Bytes} {blocks : List SegmentBlock} {entries : List IdxEntry}
    (compacted : Compacted codecs seg blocks entries) :
    readSegmentLayout codecs seg = .ok ⟨recordsOf blocks, entries, false, none⟩ := by
  rw [readSegmentLayout_eq compacted.walk.maximal, layoutOf, compacted.entries, ok_bind,
    hasRow_eq_false.mpr compacted.columnar, tailAt, if_neg (Nat.lt_irrefl _)]
  rfl

/-- **Stability.** A call on a compacted segment succeeds, keeps the segment and rights the
index; if the index is right, it changes nothing. -/
theorem recompactSegment_of_compacted (paths : Paths) {files : Files File} {seg : Bytes}
    {blocks : List SegmentBlock} {entries : List IdxEntry} (present : files .seg = some seg)
    (compacted : Compacted codecs seg blocks entries) :
    ∃ outcome after, Runs (recompactSegment codecs paths) files outcome after ∧
      outcome.alreadyCompacted = true ∧ after .seg = some seg ∧ Indexes (after .idx) entries ∧
      (Indexes (files .idx) entries → outcome.rebuiltIdx = false ∧ after .idx = files .idx) := by
  obtain ⟨sizes, files₁, measure, seg₁, idx₁⟩ := measureFiles_runs paths present
  have inspect : Runs (inspectSegment codecs paths) files₁ _ files₁ :=
    (readSegmentLayoutIo_runs paths (seg₁.trans present) compacted.layout).bind
      ((Runs.pure ()).bind (.pure _))
  obtain ⟨outcome, after, keep, already, seg₂, indexes, unchanged⟩ :=
    keepSegment_runs paths (seg₁.trans present) ⟨recordsOf blocks, entries, false, none⟩ rfl
      sizes.1 sizes.2
  have inner : Runs (recompactSegmentInner codecs paths) files outcome after :=
    measure.bind (inspect.bind keep)
  refine ⟨outcome, after, inner.attempt.bind (.pure _), already, seg₂, indexes, ?_⟩
  intro right
  rw [← idx₁] at right
  obtain ⟨rebuilt, rfl⟩ := unchanged right
  exact ⟨rebuilt, idx₁⟩

/-- **Recompaction preserves content and index.** If a call on a segment returns, the new
segment consists of columnar blocks with the records of the old maximal walk, in order; the
new index has one entry per record, which carries its game and locates it; a tail that was
dropped was not indexed; and a second call succeeds and changes nothing. -/
theorem recompactSegment_preserves (codecs : Codecs) (lossless : codecs.Lossless) (paths : Paths)
    (files : Files File) (seg : Bytes) (present : files .seg = some seg)
    (outcome : RecompactOutcome) (after : World File)
    (run : recompactSegment codecs paths ⟨files, .never, []⟩ = (.ok outcome, after)) :
    ∃ blocks stop newSeg newIdx, MaximalWalk codecs seg blocks stop ∧
      after.files .seg = some newSeg ∧ after.files .idx = some newIdx ∧
      (∃ newBlocks, Walk codecs newSeg 0 newBlocks newSeg.length ∧
        (∀ block ∈ newBlocks, block.kind = .columnar) ∧
        recordsOf newBlocks = recordsOf blocks) ∧
      (∃ entries, parseIdxEntries newIdx = some entries ∧
        List.Forall₂ (Resolves codecs newSeg) (recordsOf blocks) entries) ∧
      outcome.droppedTailBytes = seg.length - stop ∧
      (0 < outcome.droppedTailBytes → ∀ idx, files .idx = some idx →
        ∃ entries, parseIdxEntries idx = some entries ∧
          ∀ entry ∈ entries, entry.blockOff.toNat < stop) ∧
      ∃ second later, recompactSegment codecs paths ⟨after.files, .never, []⟩ =
        (.ok second, later) ∧
        second.alreadyCompacted = true ∧ second.rebuiltIdx = false ∧
        later.files .seg = some newSeg ∧ later.files .idx = some newIdx := by
  obtain ⟨blocks, stop, maximal⟩ := exists_maximalWalk codecs seg
  obtain ⟨⟨newSeg, newBlocks, entries, segNow, compacted, records, indexes⟩, dropped, unindexed⟩ :=
    recompactSegmentInner_eq_ok lossless present rfl maximal (recompactSegment_eq_ok.mp run)
  obtain ⟨newIdx, idxNow, parsed⟩ := Option.bind_eq_some_iff.mp indexes
  obtain ⟨second, later, again, already, segLater, -, unchanged⟩ :=
    recompactSegment_of_compacted paths segNow compacted
  obtain ⟨log, rerun⟩ := again []
  obtain ⟨rebuilt, idxLater⟩ := unchanged indexes
  refine ⟨blocks, stop, newSeg, newIdx, maximal, segNow, idxNow,
    ⟨newBlocks, compacted.walk, compacted.columnar, records⟩, ⟨entries, parsed, ?_⟩, dropped, ?_,
    second, _, rerun, already, rebuilt, segLater, idxLater.trans idxNow⟩
  · rw [← records]
    exact layoutEntries_resolve compacted.walk compacted.entries
  · intro some
    exact unindexed (by omega)

/-- A row block with the short record, and three bytes of a torn block. -/
def shortSegment : Bytes :=
  let row := toLe 4 shortRecord.encodeToVec.length ++ shortRecord.encodeToVec
  containerBytes shortCodecs segMagic row.length
    (frameHeader row.length ++ row) ++ [0x31, 0x4c, 0x53]

/-- The short segment without an index, and a stale temporary file. -/
def shortFiles : Files File
  | .seg => some shortSegment
  | .segTmp => some [0]
  | .idx | .idxTmp => none

def shortPaths : Paths := ⟨"NA1", "NA1/2025-01-01.seg", "NA1/2025-01-01.idx"⟩

set_option maxRecDepth 20000 in
/-- The short segment is rewritten, and its tail dropped. -/
theorem recompactSegment_preserves_short :
    ∃ outcome after, recompactSegment shortCodecs shortPaths ⟨shortFiles, .never, []⟩ =
        (.ok outcome, after) ∧ outcome.recordCount = 1 ∧ 0 < outcome.droppedTailBytes ∧
      ∃ blocks stop newSeg newIdx, MaximalWalk shortCodecs shortSegment blocks stop ∧
        after.files .seg = some newSeg ∧ after.files .idx = some newIdx ∧
        ∃ newBlocks, Walk shortCodecs newSeg 0 newBlocks newSeg.length ∧
          (∀ block ∈ newBlocks, block.kind = .columnar) ∧
          recordsOf newBlocks = recordsOf blocks := by
  have counts : (recompactSegment shortCodecs shortPaths ⟨shortFiles, .never, []⟩).1.toOption.map
      (fun outcome => (outcome.recordCount, outcome.droppedTailBytes)) = some (1, 3) := by
    decide +kernel
  rcases run : recompactSegment shortCodecs shortPaths ⟨shortFiles, .never, []⟩ with
    ⟨stop | outcome, after⟩
  · rw [run] at counts
    cases counts
  · rw [run] at counts
    obtain ⟨one, three⟩ := Prod.mk.inj (Option.some.inj counts)
    obtain ⟨blocks, stop, newSeg, newIdx, maximal, seg, idx, rewritten, -⟩ :=
      recompactSegment_preserves shortCodecs (storedCodecs_lossless _) shortPaths shortFiles
        shortSegment rfl outcome after run
    exact ⟨outcome, after, rfl, one, by omega, blocks, stop, newSeg, newIdx, maximal, seg, idx,
      rewritten⟩

end LolCrawler.Segment
