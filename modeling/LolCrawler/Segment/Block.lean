import LolCrawler.Columnar.Decode
import LolCrawler.Foundation.LittleEndian

/-! # Segment files

A segment is a sequence of container blocks, each a 16-byte header and a
compressed body that holds either length-prefixed rows or a columnar payload.
The companion index lists one locator per record. Everything here is a function
of the bytes of one file; offsets and lengths are `u64`.
-/

namespace LolCrawler.Segment

open Foundation

/-- "1LSG". -/
def segMagic : Nat := 0x47534c31

/-- "1COL". -/
def colMagic : Nat := 0x4c4f4331

def blockHeaderLen : Nat := 16

def idxEntryLen : Nat := 20

def maxSegmentBlockBytes : Nat := 256 * 1024 * 1024

def zstdLevel : Int := 7

def columnarRecompactRecordsPerBlock : Nat := 6000

def columnarRecompactZstdLevel : Int := 19

/-- The libraries the storage code calls: zstd's bulk functions, the CRC-32 hash
and the protobuf decoder. -/
structure Codecs where
  compress : Bytes → Int → Except Error Bytes
  decompress : Bytes → Nat → Except Error Bytes
  hash : Bytes → UInt32
  decode : Bytes → Except Error MatchRecord

/-- Decompression inverts compression. -/
def Codecs.Lossless (codecs : Codecs) : Prop :=
  ∀ payload level compressed, codecs.compress payload level = .ok compressed →
    codecs.decompress compressed payload.length = .ok payload

inductive BlockKind where
  | row
  | columnar
deriving DecidableEq

structure IdxEntry where
  gameId : UInt64
  blockOff : UInt64
  recOff : UInt32
deriving DecidableEq

structure SegmentBlock where
  kind : BlockKind
  blockOff : Nat
  nextOff : Nat
  records : List Bytes
  recOffsets : List UInt32
deriving DecidableEq

def knownSegmentMagic (magic : Nat) : Bool := magic = segMagic || magic = colMagic

def invalidBlock {α : Type} (strict : Bool) (msg : String) : Except Error (Option α) :=
  if strict then bail msg else .ok none

/-- `u32::try_from` on a `usize`, with a context. -/
def tryU32 (value : Nat) (what : String) : Except Error UInt32 :=
  if value < 2 ^ 32 then .ok (.ofNat value)
  else .error [what, "out of range integral type conversion attempted"]

/-- `bytes[off..off + len]`. -/
def slice (bytes : Bytes) (off len : Nat) : Bytes := (bytes.drop off).take len

/-- The row loop. The fuel bounds the bytes left, so the first equation is reached
at the end of the block only. -/
def decodeRowLoop (block : Bytes) (strict : Bool) :
    Nat → Nat → Except Error (List Bytes × List UInt32)
  | 0, _ => .ok ([], [])
  | fuel + 1, off =>
      if off < block.length then
        if block.length < off + 4 then
          if strict then bail s!"truncated row record length at byte offset {off}"
          else .ok ([], [])
        else do
          let recOff ← tryU32 off "row record offset exceeds u32"
          let rlen := ofLe (slice block off 4)
          if block.length < off + 4 + rlen then
            if strict then bail s!"truncated row record body at byte offset {off}"
            else .ok ([], [])
          else do
            let (records, recOffsets) ← decodeRowLoop block strict fuel (off + 4 + rlen)
            pure (slice block (off + 4) rlen :: records, recOff :: recOffsets)
      else .ok ([], [])

def decodeRowBlock (block : Bytes) (strict : Bool) : Except Error (List Bytes × List UInt32) :=
  decodeRowLoop block strict block.length 0

/-- The fields of a block header. -/
structure Header where
  magic : Nat
  crc : UInt32
  clen : Nat
  ulen : Nat
deriving DecidableEq

def Header.parse (header : Bytes) : Header :=
  { magic := ofLe (slice header 0 4)
    crc := .ofNat (ofLe (slice header 4 4))
    clen := ofLe (slice header 8 4)
    ulen := ofLe (slice header 12 4) }

/-- The `{:#x}` format. -/
def hexadecimal (value : Nat) : String := "0x" ++ String.ofList (Nat.toDigits 16 value)

/-- The part of `read_segment_block` up to the read of the body: the header and the
offset of the next block. -/
def readHeader (bytes : Bytes) (pos : Nat) (strict : Bool) :
    Except Error (Option (Header × Nat)) :=
  if bytes.length < pos + blockHeaderLen then
    invalidBlock strict s!"truncated segment header at {pos}"
  else
    let header := Header.parse (slice bytes pos blockHeaderLen)
    match (Columnar.checkedAdd pos blockHeaderLen).bind (Columnar.checkedAdd · header.clen) with
    | none => bail s!"segment block length overflow at {pos}"
    | some nextOff =>
        if !knownSegmentMagic header.magic then
          invalidBlock strict s!"unknown segment block magic {hexadecimal header.magic} at {pos}"
        else if bytes.length < nextOff then
          invalidBlock strict s!"truncated segment block at {pos}"
        else if maxSegmentBlockBytes < header.clen then
          invalidBlock strict
            s!"compressed segment block too large at {pos}: {header.clen} bytes"
        else if maxSegmentBlockBytes < header.ulen then
          invalidBlock strict
            s!"uncompressed segment block too large at {pos}: {header.ulen} bytes"
        else .ok (some (header, nextOff))

section Read

variable (codecs : Codecs)

/-- The uncompressed body of a block, if its checksum and length agree. -/
def readBody (pos : Nat) (strict : Bool) (header : Header) (compressed : Bytes) :
    Except Error (Option Bytes) :=
  if codecs.hash compressed ≠ header.crc then
    invalidBlock strict s!"crc mismatch at segment block {pos}"
  else
    match codecs.decompress compressed header.ulen with
    | .error err => invalidBlock strict s!"zstd decompress failed at {pos}: {shown err}"
    | .ok block =>
        if block.length ≠ header.ulen then
          invalidBlock strict
            s!"uncompressed length mismatch at {pos}: got {block.length} want {header.ulen}"
        else .ok (some block)

/-- The ordinals of a columnar block's records. -/
def ordinals (count : Nat) : Except Error (List UInt32) :=
  (List.range count).mapM fun idx => tryU32 idx "columnar block has too many records"

/-- The records of an uncompressed body and their locators within the block. -/
def decodeBody (pos : Nat) (strict : Bool) (kind : BlockKind) (block : Bytes) :
    Except Error (Option (List Bytes × List UInt32)) :=
  match kind with
  | .row => (decodeRowBlock block strict).map some
  | .columnar =>
      match Columnar.decodeBlock block with
      | .ok records => (ordinals records.length).map fun offsets => some (records, offsets)
      | .error err => invalidBlock strict s!"columnar decode failed at {pos}: {shown err}"

def kindOf (magic : Nat) : BlockKind := if magic = segMagic then .row else .columnar

def readSegmentBlock (bytes : Bytes) (pos : Nat) (strict : Bool) :
    Except Error (Option SegmentBlock) := do
  let some (header, nextOff) ← readHeader bytes pos strict | pure none
  let compressed := slice bytes (pos + blockHeaderLen) header.clen
  let some block ← readBody codecs pos strict header compressed | pure none
  let some (records, recOffsets) ← decodeBody pos strict (kindOf header.magic) block | pure none
  pure (some { kind := kindOf header.magic, blockOff := pos, nextOff := nextOff,
               records := records, recOffsets := recOffsets })

/-- The loop of `read_segment_records`. -/
def readRecordsLoop (bytes : Bytes) : Nat → Nat → Except Error (List Bytes)
  | 0, _ => .ok []
  | fuel + 1, pos =>
      if pos < bytes.length then do
        let some block ← readSegmentBlock codecs bytes pos false | pure []
        let rest ← readRecordsLoop bytes fuel block.nextOff
        pure (block.records ++ rest)
      else .ok []

/-- Reads every record from a segment; stops at the first invalid block. -/
def readSegmentRecords (bytes : Bytes) : Except Error (List Bytes) :=
  readRecordsLoop codecs bytes bytes.length 0

/-- Reads one record by its locator. -/
def readRecordAt (bytes : Bytes) (blockOff : Nat) (recOff : UInt32) : Except Error Bytes := do
  let block ← (← readSegmentBlock codecs bytes blockOff true).elim
    (bail s!"no block at offset {blockOff}") .ok
  match block.kind with
  | .row =>
      orBail s!"row record offset {recOff} not found in block {blockOff}"
        ((block.recOffsets.findIdx? (· = recOff)).bind (block.records[·]?))
  | .columnar =>
      orBail s!"columnar record ordinal {recOff} not found in block {blockOff}"
        block.records[recOff.toNat]?

def decodeGameId (raw : Bytes) : Except Error UInt64 := do
  pure (← codecs.decode raw).gameId

structure SegmentTornTail where
  validLen : Nat
  droppedBytes : Nat
deriving DecidableEq

structure SegmentLayout where
  records : List Bytes
  idxEntries : List IdxEntry
  hasRowBlocks : Bool
  tornTail : Option SegmentTornTail
deriving DecidableEq

/-- The index entries of one block. -/
def blockEntries (blockOff : Nat) : List (Bytes × UInt32) → Except Error (List IdxEntry)
  | [] => .ok []
  | (raw, recOff) :: pairs => do
      let gameId ← context s!"decode game_id at block {blockOff} rec_off {recOff}"
        (decodeGameId codecs raw)
      let entries ← blockEntries blockOff pairs
      pure ({ gameId := gameId, blockOff := .ofNat blockOff, recOff := recOff } :: entries)

/-- One readable block in front of the layout of the rest. -/
def SegmentLayout.cons (block : SegmentBlock) (entries : List IdxEntry) (rest : SegmentLayout) :
    SegmentLayout where
  records := block.records ++ rest.records
  idxEntries := entries ++ rest.idxEntries
  hasRowBlocks := block.kind = .row || rest.hasRowBlocks
  tornTail := rest.tornTail

def SegmentLayout.empty : SegmentLayout := ⟨[], [], false, none⟩

/-- A tail that starts at `pos`. -/
def SegmentLayout.torn (pos len : Nat) : SegmentLayout := ⟨[], [], false, some ⟨pos, len - pos⟩⟩

/-- What `read_segment_layout` collects from one block. -/
def layoutBlock (block : SegmentBlock) : Except Error (List IdxEntry) := do
  ensure (block.records.length = block.recOffsets.length)
    s!"record/offset count mismatch at block {block.blockOff}"
  blockEntries codecs block.blockOff (block.records.zip block.recOffsets)

/-- The loop of `read_segment_layout`. -/
def layoutLoop (bytes : Bytes) : Nat → Nat → Except Error SegmentLayout
  | 0, _ => .ok .empty
  | fuel + 1, pos =>
      if pos < bytes.length then
        match readSegmentBlock codecs bytes pos true with
        | .ok (some block) => do
            let entries ← layoutBlock codecs block
            let rest ← layoutLoop bytes fuel block.nextOff
            pure (.cons block entries rest)
        | _ => .ok (.torn pos bytes.length)
      else .ok .empty

/-- `read_segment_layout`: the strictly readable blocks and the tail behind them. -/
def readSegmentLayout (bytes : Bytes) : Except Error SegmentLayout :=
  layoutLoop codecs bytes bytes.length 0

end Read

/-- The loop of `validate_segment`. -/
def validateLoop (bytes : Bytes) : Nat → Nat → Nat
  | 0, pos => pos
  | fuel + 1, pos =>
      if bytes.length < pos + blockHeaderLen then pos
      else
        let header := Header.parse (slice bytes pos blockHeaderLen)
        if !knownSegmentMagic header.magic || bytes.length < pos + blockHeaderLen + header.clen
        then pos
        else validateLoop bytes fuel (pos + blockHeaderLen + header.clen)

/-- The offset of the end of the last intact block. -/
def validateSegment (bytes : Bytes) : Nat := validateLoop bytes bytes.length 0

/-! ## Writing -/

/-- The header of a block. Its fields are `u32`. -/
def headerBytes (codecs : Codecs) (magic ulen : Nat) (compressed : Bytes) : Bytes :=
  toLe 4 magic ++ toLe 4 (codecs.hash compressed).toNat ++ toLe 4 compressed.length ++ toLe 4 ulen

/-- A block: its header and its body. -/
def containerBytes (codecs : Codecs) (magic ulen : Nat) (compressed : Bytes) : Bytes :=
  headerBytes codecs magic ulen compressed ++ compressed

def IdxEntry.bytes (entry : IdxEntry) : Bytes :=
  toLe 8 entry.gameId.toNat ++ toLe 8 entry.blockOff.toNat ++ toLe 4 entry.recOff.toNat

/-- The contents of an index file. -/
def idxBytes (entries : List IdxEntry) : Bytes := entries.flatMap IdxEntry.bytes

/-- One entry of an index file. -/
def IdxEntry.parse (chunk : Bytes) : IdxEntry :=
  { gameId := .ofNat (ofLe (slice chunk 0 8))
    blockOff := .ofNat (ofLe (slice chunk 8 8))
    recOff := .ofNat (ofLe (slice chunk 16 4)) }

/-- `chunks_exact(IDX_ENTRY_LEN)`, for a whole number of entries. -/
def idxChunks : Nat → Bytes → List IdxEntry
  | 0, _ => []
  | count + 1, bytes => .parse (bytes.take idxEntryLen) :: idxChunks count (bytes.drop idxEntryLen)

def parseIdxEntries (bytes : Bytes) : Option (List IdxEntry) :=
  if bytes.length % idxEntryLen ≠ 0 then none
  else some (idxChunks (bytes.length / idxEntryLen) bytes)

/-! ## Stored frames -/

/-- The rounds for one byte of a CRC-32. -/
def crcRounds : Nat → UInt32 → UInt32
  | 0, crc => crc
  | rounds + 1, crc =>
      crcRounds rounds (if crc &&& 1 = 1 then (crc >>> 1) ^^^ 0xEDB88320 else crc >>> 1)

/-- `crc32fast::hash`. -/
def crc32 (bytes : Bytes) : UInt32 :=
  (bytes.foldl (fun crc byte => crcRounds 8 (crc ^^^ byte.toUInt32)) 0xFFFFFFFF) ^^^ 0xFFFFFFFF

/-- The header of a zstd frame with one raw block. -/
def frameHeader (len : Nat) : Bytes :=
  [0x28, 0xB5, 0x2F, 0xFD, 0xA0] ++ toLe 4 len ++ toLe 3 (8 * len + 1)

/-- Codecs that compress nothing: zstd frames with one raw block, as for short inputs. -/
def storedCodecs (decode : Bytes → Except Error MatchRecord) : Codecs where
  compress payload _ :=
    if payload.length < 2 ^ 17 then .ok (frameHeader payload.length ++ payload)
    else bail "too large for one block"
  decompress frame _ := .ok (frame.drop 12)
  hash := crc32
  decode := decode

theorem storedCodecs_lossless (decode : Bytes → Except Error MatchRecord) :
    (storedCodecs decode).Lossless := by
  intro payload level compressed packed
  simp only [storedCodecs] at packed ⊢
  split at packed
  · cases packed
    have header : (frameHeader payload.length).length = 12 := by simp [frameHeader]
    rw [← header, List.drop_left]
  · cases packed

/-- A short record. -/
def shortRecord : MatchRecord where
  schemaVersion := 1
  gameId := 90
  platform := ""
  queueId := 0
  gameStartMs := 0
  durationS := 0
  blueWon := true
  gameVersion := ""
  patchMajor := 0
  patchMinor := 0
  participants := []
  timeline := none
  bans := []

/-- Stored frames, and a decoder of the short record's bytes. -/
def shortCodecs : Codecs :=
  storedCodecs fun raw =>
    if raw = shortRecord.encodeToVec then .ok shortRecord else bail "not the short record"

end LolCrawler.Segment
