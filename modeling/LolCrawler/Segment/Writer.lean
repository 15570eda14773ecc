import LolCrawler.Segment.Rewrite

/-! # The segment writer

Records wait in a buffer until `flush` appends them to the segment as one row
block. A flushed block is read back (`Walk.append_rowBlock`), and a part of one is
what `open_files` cuts off (`validateSegment_append_part`). But a flush that
follows a failed one appends behind whatever that one left.
-/

namespace LolCrawler.Segment

open Foundation

/-! ## The writer -/

/-- The block in the making: its bytes, and the game and offset of each record. -/
structure SegmentWriter where
  buf : Bytes
  pending : List (UInt64 × UInt32)

/-- A length-prefixed record. -/
def rowBytes (raw : Bytes) : Bytes := toLe 4 raw.length ++ raw

namespace SegmentWriter

/-- Nothing is waiting. -/
def empty : SegmentWriter := ⟨[], []⟩

def append (writer : SegmentWriter) (record : MatchRecord) : SegmentWriter where
  buf := writer.buf ++ rowBytes record.encodeToVec
  pending := writer.pending ++ [(record.gameId, .ofNat writer.buf.length)]

/-- The writer after a run of `append`s. -/
def appendAll (writer : SegmentWriter) (records : List MatchRecord) : SegmentWriter :=
  records.foldl append writer

/-- The index entries of the pending records. -/
def entries (writer : SegmentWriter) (blockOff : Nat) : List IdxEntry :=
  writer.pending.map fun (gameId, recOff) =>
    { gameId := gameId, blockOff := .ofNat blockOff, recOff := recOff }

variable (codecs : Codecs)

open Fs

/-- The block is written, then its index entries; each file is synced. -/
def writeBlock (writer : SegmentWriter) (blockOff : Nat) (compressed : Bytes) : Fs File Unit := do
  step (.write .seg (headerBytes codecs segMagic writer.buf.length compressed))
  step (.write .seg compressed)
  step (.sync .seg)
  step (.write .idx (idxBytes (writer.entries blockOff)))
  step (.sync .idx)

/-- `flush`. The writer is what it returns, or what it was if it fails. -/
def flush (writer : SegmentWriter) : Fs File SegmentWriter :=
  if writer.pending.isEmpty then pure writer
  else do
    let blockOff ← metadataLen .seg
    let compressed ← lift (codecs.compress writer.buf zstdLevel)
    writeBlock codecs writer blockOff compressed
    pure .empty

end SegmentWriter

/-- Cuts the segment if it is longer than its intact blocks. -/
def truncateTorn (valid len : Nat) : Fs File Unit :=
  if valid < len then do
    Fs.step (.setLen .seg valid)
    Fs.step .observe
  else pure ()

/-- `open_files`: a torn tail is cut off the segment. -/
def openFiles : Fs File Unit := do
  Fs.step (.touch .seg)
  let bytes ← Fs.openFile .seg
  truncateTorn (validateSegment bytes) bytes.length
  Fs.step (.touch .idx)

/-! ## Row blocks -/

variable {codecs : Codecs}

/-- The offsets of rows from `off` on. -/
def rowOffsets : Nat → List Bytes → List UInt32
  | _, [] => []
  | off, raw :: raws => .ofNat off :: rowOffsets (off + 4 + raw.length) raws

/-- Rows are read back. -/
theorem decodeRowLoop_rows {block : Bytes} {strict : Bool} (small : block.length < 2 ^ 32)
    {raws : List Bytes} :
    ∀ {fuel off : Nat}, block.drop off = raws.flatMap rowBytes → off ≤ block.length →
      block.length ≤ off + fuel →
        decodeRowLoop block strict fuel off = .ok (raws, rowOffsets off raws) := by
  induction raws with
  | nil =>
      intro fuel off rows inside enough
      have past : block.length ≤ off := List.drop_eq_nil_iff.mp rows
      cases fuel with
      | zero => rfl
      | succ fuel =>
          rw [decodeRowLoop, if_neg (by omega)]
          rfl
  | cons raw raws ih =>
      intro fuel off rows inside enough
      rw [List.flatMap_cons, rowBytes, List.append_assoc] at rows
      have length := congrArg List.length rows
      rw [List.length_drop, List.length_append, List.length_append, toLe_length] at length
      have prefixed : slice block off 4 = toLe 4 raw.length := by
        rw [slice, rows, List.take_left' (toLe_length 4 _)]
      have rlen : ofLe (slice block off 4) = raw.length := by
        rw [prefixed, ofLe_toLe_of_lt (by omega)]
      have body : slice block (off + 4) raw.length = raw := by
        rw [slice, ← List.drop_drop, rows, List.drop_left' (toLe_length 4 _), List.take_left]
      have last : rowEnd block off = off + 4 + raw.length := by rw [rowEnd, rlen]
      have rest : block.drop (off + 4 + raw.length) = raws.flatMap rowBytes := by
        rw [← List.drop_drop, ← List.drop_drop, rows, List.drop_left' (toLe_length 4 _),
          List.drop_left]
      cases fuel with
      | zero => omega
      | succ fuel =>
          have loop := ih rest (by omega)
            (show block.length ≤ off + 4 + raw.length + fuel by omega)
          have recOff : tryU32 off "row record offset exceeds u32" = .ok (.ofNat off) :=
            tryU32_eq_ok.mpr ⟨by omega, rfl⟩
          rw [decodeRowLoop_row (by omega) (by omega), recOff, ok_bind, last, loop, rlen, body]
          rfl

/-- The rows of a block are read back. -/
theorem decodeRowBlock_rows {raws : List Bytes} (small : (raws.flatMap rowBytes).length < 2 ^ 32)
    (strict : Bool) :
    decodeRowBlock (raws.flatMap rowBytes) strict = .ok (raws, rowOffsets 0 raws) :=
  decodeRowLoop_rows small rfl (Nat.zero_le _) (by omega)

/-- What `flush` writes for these records, within the reader's limits. -/
structure RowBlock (codecs : Codecs) (raws : List Bytes) (compressed : Bytes) : Prop where
  packed : codecs.compress (raws.flatMap rowBytes) zstdLevel = .ok compressed
  clen : compressed.length ≤ maxSegmentBlockBytes
  ulen : (raws.flatMap rowBytes).length ≤ maxSegmentBlockBytes

/-- The bytes of a row block. -/
def rowBlockBytes (codecs : Codecs) (raws : List Bytes) (compressed : Bytes) : Bytes :=
  containerBytes codecs segMagic (raws.flatMap rowBytes).length compressed

/-- A row block is a header and the compressed rows. -/
theorem rowBlockBytes_length (codecs : Codecs) (raws : List Bytes) (compressed : Bytes) :
    (rowBlockBytes codecs raws compressed).length = blockHeaderLen + compressed.length := by
  rw [rowBlockBytes, containerBytes, List.length_append, headerBytes_length]

/-- A container within the limits is a framed block. -/
theorem framed_container {bytes rest compressed payload : Bytes} {pos magic : Nat}
    (here : bytes.drop pos = containerBytes codecs magic payload.length compressed ++ rest)
    (small : bytes.length < 2 ^ 63) (inside : pos ≤ bytes.length)
    (known : knownSegmentMagic magic = true) (clen : compressed.length ≤ maxSegmentBlockBytes)
    (ulen : payload.length ≤ maxSegmentBlockBytes)
    (opens : codecs.decompress compressed payload.length = .ok payload) :
    Framed codecs bytes pos ⟨magic, codecs.hash compressed, compressed.length, payload.length⟩
      (pos + blockHeaderLen + compressed.length) payload := by
  have length := congrArg List.length here
  rw [List.length_drop, List.length_append, containerBytes, List.length_append,
    headerBytes_length] at length
  obtain ⟨head, content⟩ := slice_container here
  have magicSmall : magic < 2 ^ 32 := by
    rcases Bool.or_eq_true_iff.mp known with is | is
    · rw [of_decide_eq_true is]
      decide
    · rw [of_decide_eq_true is]
      decide
  unfold maxSegmentBlockBytes at clen ulen
  refine ⟨⟨by omega, ?_, rfl, ?_, known, by omega, clen, ulen⟩, ⟨?_, ?_, rfl⟩⟩
  · rw [head, parse_headerBytes magicSmall (by omega) (by omega)]
  · unfold Columnar.usizeBound
    omega
  · rw [content]
  · rw [content]
    exact opens

/-- The block that is read where a row block was appended. -/
def rowBlockOf (seg : Bytes) (raws : List Bytes) (compressed : Bytes) : SegmentBlock where
  kind := .row
  blockOff := seg.length
  nextOff := seg.length + blockHeaderLen + compressed.length
  records := raws
  recOffsets := rowOffsets 0 raws

/-- A row block is read back. -/
theorem readSegmentBlock_rowBlock (lossless : codecs.Lossless) {seg compressed : Bytes}
    {raws : List Bytes} (block : RowBlock codecs raws compressed)
    (small : (seg ++ rowBlockBytes codecs raws compressed).length < 2 ^ 63) :
    readSegmentBlock codecs (seg ++ rowBlockBytes codecs raws compressed) seg.length true =
      .ok (some (rowBlockOf seg raws compressed)) := by
  have here : (seg ++ rowBlockBytes codecs raws compressed).drop seg.length =
      containerBytes codecs segMagic (raws.flatMap rowBytes).length compressed ++ [] := by
    rw [List.drop_left, List.append_nil, rowBlockBytes]
  have framed := framed_container here small (by simp) rfl block.clen block.ulen
    (lossless _ _ _ block.packed)
  have few : (raws.flatMap rowBytes).length < 2 ^ 32 :=
    Nat.lt_of_le_of_lt block.ulen (by decide)
  exact readSegmentBlock_eq_some.mpr
    ⟨_, _, framed, decodeBody_row.mpr (decodeRowBlock_rows few true), rfl, rfl⟩

/-- The next block is at the end. -/
theorem rowBlockOf_nextOff (codecs : Codecs) (seg : Bytes) (raws : List Bytes)
    (compressed : Bytes) :
    (rowBlockOf seg raws compressed).nextOff =
      (seg ++ rowBlockBytes codecs raws compressed).length := by
  rw [List.length_append, rowBlockBytes_length, rowBlockOf, Nat.add_assoc]

/-- **Flushed blocks.** A row block that is appended to a readable segment is read back. -/
theorem Walk.append_rowBlock (lossless : codecs.Lossless) {seg compressed : Bytes}
    {blocks : List SegmentBlock} {raws : List Bytes} (walk : Walk codecs seg 0 blocks seg.length)
    (block : RowBlock codecs raws compressed)
    (small : (seg ++ rowBlockBytes codecs raws compressed).length < 2 ^ 63) :
    ∃ last, Walk codecs (seg ++ rowBlockBytes codecs raws compressed) 0 (blocks ++ [last])
        (seg ++ rowBlockBytes codecs raws compressed).length ∧ last.records = raws := by
  have last : Walk codecs (seg ++ rowBlockBytes codecs raws compressed) seg.length
      [rowBlockOf seg raws compressed] (seg ++ rowBlockBytes codecs raws compressed).length := by
    refine .step (readSegmentBlock_rowBlock lossless block small) ?_
    rw [rowBlockOf_nextOff codecs]
    exact .done _
  refine ⟨_, (walk.congr (Nat.zero_le _) ?_ ?_).append last, rfl⟩
  · rw [List.take_left, List.take_length]
  · simp

/-! ## Reopening -/

/-- A readable block is intact. -/
theorem validateLoop_of_walk {bytes : Bytes} {pos stop : Nat} {blocks : List SegmentBlock}
    (walk : Walk codecs bytes pos blocks stop) :
    ∀ fuel, bytes.length ≤ pos + fuel →
      ∃ fuel', bytes.length ≤ stop + fuel' ∧
        validateLoop bytes fuel pos = validateLoop bytes fuel' stop := by
  induction walk with
  | done pos =>
      intro fuel enough
      exact ⟨fuel, enough, rfl⟩
  | @step pos stop block blocks read rest ih =>
      intro fuel enough
      obtain ⟨header, body, framed, -⟩ := readSegmentBlock_eq_some.mp read
      have whole := framed.head.whole
      have inside := framed.head.inside
      have next := framed.head.next
      have known := framed.head.known
      rw [framed.head.parsed] at known next
      unfold blockHeaderLen at whole next
      cases fuel with
      | zero => omega
      | succ fuel =>
          obtain ⟨fuel', enough', same⟩ := ih fuel (by omega)
          refine ⟨fuel', enough', ?_⟩
          rw [← same, validateLoop, if_neg (by unfold blockHeaderLen; omega)]
          simp only [known, Bool.not_true, Bool.false_or, decide_eq_true_eq]
          unfold blockHeaderLen
          rw [if_neg (by omega), ← next]

/-- A part of a block is shorter. -/
theorem length_part (seg : Bytes) {block : Bytes} {written : Nat} (part : written < block.length) :
    (seg ++ block.take written).length = seg.length + written := by
  rw [List.length_append, List.length_take, Nat.min_eq_left (Nat.le_of_lt part)]

/-- The header of a block that was written in part. -/
theorem slice_part (codecs : Codecs) (seg compressed : Bytes) (magic ulen : Nat) {written : Nat}
    (whole : blockHeaderLen ≤ written) :
    slice (seg ++ (containerBytes codecs magic ulen compressed).take written) seg.length
      blockHeaderLen = headerBytes codecs magic ulen compressed := by
  rw [slice, List.drop_left, List.take_take, Nat.min_eq_left whole, containerBytes,
    ← headerBytes_length codecs magic ulen compressed, List.take_left]

/-- No header lies where a block was written in part. -/
theorem not_headerAt_part {seg compressed : Bytes} {magic ulen written : Nat}
    (known : magic < 2 ^ 32) (clen : compressed.length < 2 ^ 32) (small : ulen < 2 ^ 32)
    (part : written < (containerBytes codecs magic ulen compressed).length) (header : Header)
    (nextOff : Nat) :
    ¬ HeaderAt (seg ++ (containerBytes codecs magic ulen compressed).take written) seg.length header
      nextOff := by
  intro head
  have whole := head.whole
  have inside := head.inside
  rw [length_part seg part] at whole inside
  have next := head.next
  rw [head.parsed, slice_part codecs seg _ _ _ (by omega),
    parse_headerBytes known clen small] at next
  rw [containerBytes, List.length_append, headerBytes_length] at part
  simp only at next
  omega

/-- **Torn blocks.** Of a block that was written in part, `open_files` keeps nothing. -/
theorem validateSegment_part {seg compressed : Bytes} {magic ulen written : Nat}
    {blocks : List SegmentBlock} (walk : Walk codecs seg 0 blocks seg.length)
    (known : magic < 2 ^ 32) (clen : compressed.length < 2 ^ 32) (small : ulen < 2 ^ 32)
    (part : written < (containerBytes codecs magic ulen compressed).length) :
    validateSegment (seg ++ (containerBytes codecs magic ulen compressed).take written) =
      seg.length := by
  have length := length_part seg part
  have kept := walk.congr (Nat.zero_le _)
    (show seg.take seg.length =
      (seg ++ (containerBytes codecs magic ulen compressed).take written).take seg.length by
        rw [List.take_left, List.take_length]) (by omega)
  obtain ⟨fuel, -, same⟩ := validateLoop_of_walk kept _ (Nat.le_add_left _ _)
  rw [validateSegment, same]
  cases fuel with
  | zero => rfl
  | succ fuel =>
      unfold validateLoop
      split
      · rfl
      · next whole =>
          rw [length] at whole
          have parsed := slice_part codecs seg compressed magic ulen
            (show blockHeaderLen ≤ written by omega)
          rw [containerBytes, List.length_append, headerBytes_length] at part
          simp only [parsed, parse_headerBytes known clen small, length]
          rw [if_pos]
          simp only [Bool.or_eq_true, decide_eq_true_eq]
          omega

end LolCrawler.Segment
