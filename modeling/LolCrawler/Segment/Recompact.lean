import LolCrawler.Foundation.Files
import LolCrawler.Segment.Layout

/-! # Recompaction

`recompact_segment` rewrites the readable records of a segment as columnar blocks.
It writes both new files next to the old ones, reads the new segment back, and
renames them into place, the segment first. A segment without row blocks is kept:
its tail is cut off in place, and its index is replaced if it is not the right one.
-/

namespace LolCrawler.Segment

open Foundation

/-- The files a recompaction touches. -/
inductive File where
  | seg
  | idx
  | segTmp
  | idxTmp
deriving DecidableEq

/-- The names of the segment, of its index, and of their directory. -/
structure Paths where
  dir : String
  seg : String
  idx : String

def Paths.display (paths : Paths) : File → String
  | .seg => paths.seg
  | .idx => paths.idx
  | .segTmp => paths.seg ++ ".tmp"
  | .idxTmp => paths.idx ++ ".tmp"

structure RecompactOutcome where
  alreadyCompacted : Bool
  rebuiltIdx : Bool
  droppedTailBytes : Nat
  beforeSegBytes : Nat
  afterSegBytes : Nat
  beforeIdxBytes : Nat
  afterIdxBytes : Nat
  recordCount : Nat
deriving DecidableEq

section Checks

/-- The check of `ensure_torn_tail_unindexed` on the contents of the index. -/
def checkTornTail (idxPath : String) (tail : SegmentTornTail) (bytes : Bytes) :
    Except Error Unit := do
  ensure (bytes.length % idxEntryLen = 0)
    (s!"refusing to drop torn segment tail at byte {tail.validLen} " ++
      s!"({tail.droppedBytes} bytes): idx {idxPath} is malformed")
  match ((parseIdxEntries bytes).getD []).find?
    (fun entry => tail.validLen ≤ entry.blockOff.toNat) with
  | none => pure ()
  | some entry =>
      bail (s!"refusing to drop torn segment tail at byte {tail.validLen} " ++
        s!"({tail.droppedBytes} bytes): idx entry game_id={entry.gameId} " ++
        s!"references block_off={entry.blockOff} at/behind the tail")

/-- The comparison loop of `verify_rewrite`. -/
def verifyBytes : List (Bytes × Bytes) → Nat → Except Error Unit
  | [], _ => .ok ()
  | (want, got) :: pairs, idx => do
      ensure (want = got)
        (s!"recompact verify byte mismatch at record {idx}: " ++
          s!"want {want.length} bytes got {got.length} bytes")
      verifyBytes pairs (idx + 1)

def verifyRewrite (want got : List Bytes) : Except Error Unit := do
  ensure (want.length = got.length)
    s!"recompact verify record count mismatch: want {want.length} got {got.length}"
  verifyBytes (want.zip got) 0

/-- The rounds of `chunks`, which takes `size` items at a time. -/
def chunksLoop {α : Type} (size : Nat) : Nat → List α → List (List α)
  | 0, _ => []
  | fuel + 1, list =>
      if list.isEmpty then [] else list.take size :: chunksLoop size fuel (list.drop size)

/-- `chunks(size)`. -/
def chunks {α : Type} (size : Nat) (list : List α) : List (List α) :=
  chunksLoop size list.length list

/-- The index entries of one chunk, from ordinal `ord` on. -/
def chunkEntries (codecs : Codecs) (blockOff : Nat) : List Bytes → Nat →
    Except Error (List IdxEntry)
  | [], _ => .ok []
  | raw :: raws, ord => do
      let gameId ← decodeGameId codecs raw
      let recOff ← tryU32 ord "columnar ordinal exceeds u32"
      let entries ← chunkEntries codecs blockOff raws (ord + 1)
      pure ({ gameId := gameId, blockOff := .ofNat blockOff, recOff := recOff } :: entries)

end Checks

section Recompact

variable (codecs : Codecs) (paths : Paths)

open Fs

def removeFileIfExists (path : File) : Fs File Unit :=
  Fs.context s!"remove {paths.display path}" (step (.remove path))

def fileLenOrZero (path : File) : Fs File Nat := do
  let found ← Fs.context s!"stat {paths.display path}" (read path)
  pure (found.elim 0 List.length)

/-- `fs::metadata(path)?.len()`. -/
def metadataLen (path : File) : Fs File Nat := do
  pure (← openFile path).length

/-- The loop of `read_segment_layout`. A block whose read fails starts the torn tail. -/
def layoutLoopIo (bytes : Bytes) : Nat → Nat → Fs File SegmentLayout
  | 0, _ => pure .empty
  | fuel + 1, pos =>
      if pos < bytes.length then do
        match ← attempt (step .observe) with
        | .error _ => pure (.torn pos bytes.length)
        | .ok () =>
            match readSegmentBlock codecs bytes pos true with
            | .ok (some block) => do
                let entries ← lift (layoutBlock codecs block)
                let rest ← layoutLoopIo bytes fuel block.nextOff
                pure (.cons block entries rest)
            | _ => pure (.torn pos bytes.length)
      else pure .empty

/-- `read_segment_layout`. -/
def readSegmentLayoutIo (path : File) : Fs File SegmentLayout := do
  let bytes ← Fs.context s!"open {paths.display path}" (openFile path)
  step .observe
  layoutLoopIo codecs bytes bytes.length 0

def readSegmentRecordsStrict (path : File) : Fs File (List Bytes) := do
  let layout ← readSegmentLayoutIo codecs paths path
  lift (ensure layout.tornTail.isNone
    s!"rewritten segment {paths.display path} ended with an invalid/truncated tail")
  pure layout.records

def ensureTornTailUnindexed (tail : SegmentTornTail) : Fs File Unit := do
  match ← Fs.context s!"read {paths.idx}" (read .idx) with
  | none => pure ()
  | some bytes => lift (checkTornTail paths.idx tail bytes)

def truncateSegmentTail (validLen : Nat) : Fs File Unit := do
  let _ ← Fs.context s!"open {paths.seg} for tail truncation" (openFile .seg)
  Fs.context s!"truncate {paths.seg} to {validLen}" (step (.setLen .seg validLen))
  Fs.context s!"fsync truncated {paths.seg}" (step (.sync .seg))

def readIdxEntries : Fs File (Option (List IdxEntry)) := do
  let found ← Fs.context s!"read {paths.idx}" (read .idx)
  pure (found.bind parseIdxEntries)

def idxMatches (expected : List IdxEntry) : Fs File Bool := do
  match ← readIdxEntries paths with
  | none => pure false
  | some entries => pure (entries = expected)

def writeIdxTmp (entries : List IdxEntry) : Fs File Unit := do
  Fs.context s!"create {paths.display .idxTmp}" (step (.create .idxTmp))
  step (.write .idxTmp (idxBytes entries))
  Fs.context s!"fsync {paths.display .idxTmp}" (step (.sync .idxTmp))

/-- `sync_parent_dir`; both files are in one directory. -/
def syncParentDir : Fs File Unit := do
  Fs.context s!"open directory {paths.dir}" (step .observe)
  Fs.context s!"fsync directory {paths.dir}" (step .observe)

/-- `fs::rename` of a temporary file over its target. -/
def renameOver (source target : File) : Fs File Unit :=
  Fs.context s!"rename {paths.display source} over {paths.display target}"
    (step (.rename source target))

def replaceIdx (entries : List IdxEntry) : Fs File Unit := do
  removeFileIfExists paths .idxTmp
  writeIdxTmp paths entries
  renameOver paths .idxTmp .idx
  syncParentDir paths

def ensureIdxConsistentOrRebuild (expected : List IdxEntry) : Fs File Bool := do
  if ← idxMatches paths expected then pure false
  else do
    replaceIdx paths expected
    pure true

def writeContainerBlock (path : File) (magic : Nat) (uncompressed compressed : Bytes) :
    Fs File Unit := do
  let _ ← lift (tryU32 compressed.length "compressed block exceeds u32")
  let _ ← lift (tryU32 uncompressed.length "uncompressed block exceeds u32")
  step (.write path (headerBytes codecs magic uncompressed.length compressed))
  step (.write path compressed)

def writeColumnarBlock (path : File) (records : List Bytes) (level : Int) : Fs File Nat := do
  let blockOff ← read path
  let payload ← lift (Columnar.encodeBlock codecs.decode records)
  let compressed ← lift (codecs.compress payload level)
  writeContainerBlock codecs path colMagic payload compressed
  pure (blockOff.elim 0 List.length)

/-- The loop that writes the chunks and collects the new index. -/
def writeChunks : List (List Bytes) → Fs File (List IdxEntry)
  | [] => pure []
  | chunk :: rest => do
      let blockOff ← writeColumnarBlock codecs .segTmp chunk columnarRecompactZstdLevel
      let entries ← lift (chunkEntries codecs blockOff chunk 0)
      let later ← writeChunks rest
      pure (entries ++ later)

/-- `verify_rewrite`, with the removal of both temporary files on a mismatch. -/
def verifyOrRemove (want got : List Bytes) : Fs File Unit :=
  match verifyRewrite want got with
  | .ok () => pure ()
  | .error err => do
      let _ ← attempt (step (.remove .segTmp))
      let _ ← attempt (step (.remove .idxTmp))
      fail err

/-- Both new files, written next to the old ones and read back. -/
def writeTmps (layout : SegmentLayout) : Fs File Unit := do
  Fs.context s!"create {paths.display .segTmp}" (step (.create .segTmp))
  let newIdx ← writeChunks codecs (chunks columnarRecompactRecordsPerBlock layout.records)
  Fs.context s!"fsync {paths.display .segTmp}" (step (.sync .segTmp))
  writeIdxTmp paths newIdx
  let rewritten ← readSegmentRecordsStrict codecs paths .segTmp
  verifyOrRemove layout.records rewritten

/-- The outcome, with the sizes of both files. -/
def finish (alreadyCompacted rebuiltIdx : Bool) (layout : SegmentLayout)
    (beforeSegBytes beforeIdxBytes : Nat) : Fs File RecompactOutcome := do
  let afterSegBytes ← metadataLen .seg
  let afterIdxBytes ← fileLenOrZero paths .idx
  pure { alreadyCompacted := alreadyCompacted, rebuiltIdx := rebuiltIdx
         droppedTailBytes := layout.tornTail.elim 0 SegmentTornTail.droppedBytes
         beforeSegBytes := beforeSegBytes, afterSegBytes := afterSegBytes
         beforeIdxBytes := beforeIdxBytes, afterIdxBytes := afterIdxBytes
         recordCount := layout.records.length }

/-- `ensure_torn_tail_unindexed`, if there is a tail. -/
def ensureTailUnindexed : Option SegmentTornTail → Fs File Unit
  | none => pure ()
  | some tail => ensureTornTailUnindexed paths tail

/-- `truncate_segment_tail`, if there is a tail. -/
def truncateTail : Option SegmentTornTail → Fs File Unit
  | none => pure ()
  | some tail => truncateSegmentTail paths tail.validLen

/-- A segment without row blocks is kept. -/
def keepSegment (layout : SegmentLayout) (beforeSegBytes beforeIdxBytes : Nat) :
    Fs File RecompactOutcome := do
  truncateTail paths layout.tornTail
  let rebuiltIdx ← ensureIdxConsistentOrRebuild paths layout.idxEntries
  finish paths true rebuiltIdx layout beforeSegBytes beforeIdxBytes

/-- A segment with row blocks is rewritten. -/
def rewriteSegment (layout : SegmentLayout) (beforeSegBytes beforeIdxBytes : Nat) :
    Fs File RecompactOutcome := do
  writeTmps codecs paths layout
  renameOver paths .segTmp .seg
  renameOver paths .idxTmp .idx
  syncParentDir paths
  syncParentDir paths
  finish paths false true layout beforeSegBytes beforeIdxBytes

/-- Stale temporary files are removed and both files measured. -/
def measureFiles : Fs File (Nat × Nat) := do
  removeFileIfExists paths .segTmp
  removeFileIfExists paths .idxTmp
  let beforeSegBytes ← Fs.context s!"stat segment {paths.seg}" (metadataLen .seg)
  let beforeIdxBytes ← fileLenOrZero paths .idx
  pure (beforeSegBytes, beforeIdxBytes)

/-- The layout, whose tail must not be indexed. -/
def inspectSegment : Fs File SegmentLayout := do
  let layout ← readSegmentLayoutIo codecs paths .seg
  ensureTailUnindexed paths layout.tornTail
  pure layout

def recompactSegmentInner : Fs File RecompactOutcome := do
  let (beforeSegBytes, beforeIdxBytes) ← measureFiles paths
  let layout ← inspectSegment codecs paths
  if layout.hasRowBlocks then rewriteSegment codecs paths layout beforeSegBytes beforeIdxBytes
  else keepSegment paths layout beforeSegBytes beforeIdxBytes

def recompactSegment : Fs File RecompactOutcome := do
  match ← attempt (recompactSegmentInner codecs paths) with
  | .ok outcome => pure outcome
  | .error err => do
      let _ ← attempt (step (.remove .segTmp))
      let _ ← attempt (step (.remove .idxTmp))
      fail err

end Recompact

end LolCrawler.Segment
