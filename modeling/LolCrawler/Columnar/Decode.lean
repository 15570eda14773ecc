import LolCrawler.Columnar.Encode

/-! # The columnar decoder

The manifest is parsed, a cursor is put at the start of every column, and each
record is read off the columns and written out again as protobuf bytes.
`encodeBlock` decodes its own output before it returns it.
-/

namespace LolCrawler.Columnar

open Foundation

/-! ## Emission -/

/-- The bytes `put_field_varint` appends. -/
def putFieldVarint (field : UInt32) (value : UInt64) : Bytes :=
  if value = 0 then [] else writeVarint (field.toUInt64 <<< 3) ++ writeVarint value

def putFieldInt64 (field : UInt32) (value : Int64) : Bytes :=
  if value = 0 then [] else writeVarint (field.toUInt64 <<< 3) ++ writeVarint value.toUInt64

def putFieldMessage (field : UInt32) (bytes : Bytes) : Bytes :=
  writeVarint ((field.toUInt64 <<< 3) ||| 2) ++ writeVarint (.ofNat bytes.length) ++ bytes

def putFieldBytes (field : UInt32) (bytes : Bytes) : Bytes :=
  if bytes = [] then [] else putFieldMessage field bytes

def putFieldPackedBody (field : UInt32) (body : Bytes) : Bytes := putFieldBytes field body

/-! ## The manifest -/

structure Manifest where
  records : Nat
  statCols : Nat
  runeCols : Nat
  columns : List Bytes

namespace Manifest

/-- The `column length` loop; `idx` counts the lengths read. -/
def readLengths (payload : Bytes) : Nat → Nat → Nat → Except Error (List Nat × Nat)
  | 0, _, pos => .ok ([], pos)
  | left + 1, idx, pos => do
      let (raw, pos) ← readVarintAt payload pos "column length"
      let len ← context s!"column {idx} length" (toUsize raw "column length")
      let (lengths, pos) ← readLengths payload left (idx + 1) pos
      pure (len :: lengths, pos)

/-- The slices of the column data, from `off` on. -/
def slices (payload : Bytes) : List Nat → Nat → List Bytes
  | [], _ => []
  | len :: lengths, off => (payload.drop off).take len :: slices payload lengths (off + len)

def parse (payload : Bytes) : Except Error Manifest := do
  ensure (magic.length + 1 ≤ payload.length) "truncated columnar header"
  ensure (payload.take magic.length = magic) "bad columnar magic"
  ensure (payload.getD magic.length 0 = version) "unsupported columnar version"
  let (records, pos) ← readVarintAt payload (magic.length + 1) "record count"
  let records ← toUsize records "records"
  let (statCols, pos) ← readVarintAt payload pos "stat column count"
  let statCols ← toUsize statCols "stat columns"
  let (runeCols, pos) ← readVarintAt payload pos "rune column count"
  let runeCols ← toUsize runeCols "rune columns"
  let dynamicCols ← orBail "too many dynamic column streams" (checkedAdd statCols runeCols)
  let totalCols ← orBail "too many column streams" (checkedAdd nmisc dynamicCols)
  ensure (totalCols ≤ payload.length - pos) "truncated column manifest"
  let (lengths, dataStart) ← readLengths payload totalCols 0 pos
  let dataLen ← orBail "column lengths overflow" (lengths.foldlM checkedAdd 0)
  let dataEnd ← orBail "column lengths overflow" (checkedAdd dataStart dataLen)
  ensure (dataEnd ≤ payload.length) "truncated column data"
  ensure (dataEnd = payload.length) "trailing bytes after column data"
  pure { records := records, statCols := statCols, runeCols := runeCols,
         columns := slices payload lengths dataStart }

end Manifest

/-! ## Cursors -/

/-- A cursor in one column. -/
structure ColReader where
  bytes : Bytes
  pos : Nat

namespace ColReader

def new (bytes : Bytes) : ColReader := ⟨bytes, 0⟩

def varint (reader : ColReader) (name : String) : Except Error (UInt64 × ColReader) := do
  let (value, pos) ← readVarintAt reader.bytes reader.pos name
  pure (value, { reader with pos := pos })

/-- `ColReader::bytes`. -/
def take (reader : ColReader) (len : Nat) (name : String) : Except Error (Bytes × ColReader) := do
  let last ← orBail s!"byte length overflow in {name}" (checkedAdd reader.pos len)
  ensure (last ≤ reader.bytes.length) s!"truncated bytes in {name}"
  pure ((reader.bytes.drop reader.pos).take len, { reader with pos := last })

/-- Every byte of the column was read. -/
def done (reader : ColReader) : Bool := reader.pos = reader.bytes.length

end ColReader

structure ColReaders where
  fixed : Col → ColReader
  stat : List ColReader
  rune : List ColReader

/-- Steps that read columns and may fail. -/
abbrev Read := StateT ColReaders (Except Error)

namespace ColReaders

def new (columns : List Bytes) (statCols runeCols : Nat) : Except Error ColReaders := do
  ensure (columns.length = nmisc + statCols + runeCols) "column manifest/count mismatch"
  pure { fixed := fun col => .new (columns.getD (Col.all.idxOf col) [])
         stat := ((columns.drop nmisc).take statCols).map .new
         rune := (columns.drop (nmisc + statCols)).map .new }

def rv (col : Col) : Read UInt64 := fun readers => do
  let (value, reader) ← (readers.fixed col).varint col.name
  pure (value, { readers with fixed := Function.update readers.fixed col reader })

def rz (col : Col) : Read Int64 := do
  pure (unzigzagI64 (← rv col))

def rbytes (col : Col) (len : Nat) : Read Bytes := fun readers => do
  let (bytes, reader) ← (readers.fixed col).take len col.name
  pure (bytes, { readers with fixed := Function.update readers.fixed col reader })

def statZ (idx : Nat) : Read Int64 := fun readers => do
  let col ← orBail s!"missing stat column {idx}" readers.stat[idx]?
  let (value, reader) ← col.varint "stat"
  pure (unzigzagI64 value, { readers with stat := readers.stat.set idx reader })

def runeV (idx : Nat) : Read UInt64 := fun readers => do
  let col ← orBail s!"missing rune column {idx}" readers.rune[idx]?
  let (value, reader) ← col.varint "rune"
  pure (value, { readers with rune := readers.rune.set idx reader })

/-- The dynamic columns from `idx` on. -/
def ensureDynamicDone (kind : String) : List ColReader → Nat → Except Error Unit
  | [], _ => .ok ()
  | reader :: readers, idx => do
      ensure reader.done s!"unconsumed bytes in {kind} column {idx}"
      ensureDynamicDone kind readers (idx + 1)

def ensureFixedDone (readers : ColReaders) : List Col → Except Error Unit
  | [] => .ok ()
  | col :: cols => do
      ensure (readers.fixed col).done s!"unconsumed bytes in column {col.name}"
      readers.ensureFixedDone cols

def ensureDone (readers : ColReaders) : Except Error Unit := do
  readers.ensureFixedDone Col.all
  ensureDynamicDone "stat" readers.stat 0
  ensureDynamicDone "rune" readers.rune 0

end ColReaders

open ColReaders

/-- `read_u32(cols.rv(col)?, name)?`. -/
def rv32 (col : Col) (name : String) : Read UInt32 := do
  readU32 (← rv col) name

/-- `to_usize(cols.rv(col)?, name)?`. -/
def rvLen (col : Col) (name : String) : Read Nat := do
  toUsize (← rv col) name

/-! ## Records -/

/-- A run of `u32` fields: field number, column and name. -/
def decodeFields : List (UInt32 × Col × String) → Read Bytes
  | [] => pure []
  | (field, col, name) :: fields => do
      let value ← rv32 col name
      let rest ← decodeFields fields
      pure (putFieldVarint field value.toUInt64 ++ rest)

/-- A loop over `idx` with `left` rounds to go, whose rounds append bytes. -/
def decodeLoop (body : Nat → Read Bytes) : Nat → Nat → Read Bytes
  | 0, _ => pure []
  | left + 1, idx => do
      let bytes ← body idx
      let rest ← decodeLoop body left (idx + 1)
      pure (bytes ++ rest)

def participantFields : List (UInt32 × Col × String) :=
  [(1, .pPlayer, "player_id"), (2, .pChamp, "champion_id"), (3, .pPos, "position"),
    (4, .pSp1, "spell1"), (5, .pSp2, "spell2")]

/-- One round of the rune loop. -/
def decodeRune (idx : Nat) : Read Bytes := do
  pure (writeVarint (← readU32 (← runeV idx) "rune").toUInt64)

/-- One round of the stat loop. -/
def decodeStat (idx : Nat) : Read Bytes := do
  pure (writeVarint (zigzagI64 (← statZ idx)))

def decodeParticipant (_ : Nat) : Read Bytes := do
  let fields ← decodeFields participantFields
  let nRunes ← rvLen .pRunesN "rune count"
  let runes ← decodeLoop decodeRune nRunes 0
  let nStats ← rvLen .pStatsN "stat count"
  let stats ← decodeLoop decodeStat nStats 0
  pure (putFieldMessage 11 (fields ++ putFieldPackedBody 6 runes ++ putFieldPackedBody 7 stats))

/-- The value loop of one series, at `slot` with `left` values to go. -/
def decodeValues (vCol : Col) (name : String) (prev : List UInt32) :
    Nat → Nat → Read (List UInt32)
  | 0, _ => pure []
  | left + 1, slot => do
      let value ← addDeltaU32 (prev.getD slot 0) (← rz vCol) name
      let rest ← decodeValues vCol name prev left (slot + 1)
      pure (value :: rest)

/-- The series of a frame: field number, count and value columns, and name. -/
def frameSeries : List (UInt32 × Col × Col × String) :=
  [(2, .fGoldN, .fGold, "gold"), (3, .fXpN, .fXp, "xp"), (4, .fCsN, .fCs, "cs"),
    (5, .fDmgN, .fDmg, "damage")]

/-- The series loop: the packed fields, and the values for the next frame. -/
def decodeSeriesAll : List (UInt32 × Col × Col × String) → List (List UInt32) →
    Read (Bytes × List (List UInt32))
  | [], _ => pure ([], [])
  | (field, nCol, vCol, name) :: series, prevSeries => do
      let nValues ← rvLen nCol name
      let values ← decodeValues vCol name (prevSeries.headD []) nValues 0
      let packed := values.flatMap fun value => writeVarint value.toUInt64
      let (rest, next) ← decodeSeriesAll series prevSeries.tail
      pure (putFieldPackedBody field packed ++ rest, values :: next)

def decodeFrames : Nat → List (List UInt32) → Read Bytes
  | 0, _ => pure []
  | left + 1, prevSeries => do
      let minute ← rv32 .fMinute "minute"
      let (series, next) ← decodeSeriesAll frameSeries prevSeries
      let rest ← decodeFrames left next
      pure (putFieldMessage 1 (putFieldVarint 1 minute.toUInt64 ++ series) ++ rest)

/-- An event loop of the timeline. -/
def decodeEvents (field : UInt32) (tCol : Col) (tName : String)
    (fields : List (UInt32 × Col × String)) :
    Nat → UInt32 → Read Bytes
  | 0, _ => pure []
  | left + 1, prevT => do
      let t ← addDeltaU32 prevT (← rz tCol) tName
      let others ← decodeFields fields
      let rest ← decodeEvents field tCol tName fields left t
      pure (putFieldMessage field (putFieldVarint 1 t.toUInt64 ++ others) ++ rest)

def killFields : List (UInt32 × Col × String) :=
  [(2, .kKiller, "killer"), (3, .kVictim, "victim"), (4, .kMask, "assist_mask"),
    (5, .kX, "kill x"), (6, .kY, "kill y")]

def objectiveFields : List (UInt32 × Col × String) :=
  [(2, .oKind, "objective kind"), (3, .oKiller, "objective killer"), (4, .oTeam, "objective team"),
    (5, .oLane, "objective lane")]

def wardFields : List (UInt32 × Col × String) :=
  [(2, .wKind, "ward kind"), (3, .wPart, "ward participant")]

def decodeTimeline : Read Bytes := do
  let nFrames ← rvLen .nframes "frame count"
  let frames ← decodeFrames nFrames [[], [], [], []]
  let nKills ← rvLen .nkills "kill count"
  let kills ← decodeEvents 2 .kT "kill timestamp" killFields nKills 0
  let nObjs ← rvLen .nobjs "objective count"
  let objs ← decodeEvents 3 .oT "objective timestamp" objectiveFields nObjs 0
  let nWards ← rvLen .nwards "ward count"
  let wards ← decodeEvents 4 .wT "ward timestamp" wardFields nWards 0
  pure (frames ++ kills ++ objs ++ wards)

/-- The timeline field, if there is one. -/
def decodePresent (tlPresent : UInt64) : Read Bytes :=
  if tlPresent = 1 then do pure (putFieldMessage 12 (← decodeTimeline)) else pure []

/-- One round of the ban loop. -/
def decodeBan (_ : Nat) : Read Bytes := do
  pure (writeVarint (← rv32 .bans "ban").toUInt64)

def decodeRecord (state : BlockState) : Read (Bytes × BlockState) := do
  let schema ← rv32 .schema "schema_version"
  let gameId ← addDeltaU64 state.gameId (← rz .gidD) "game_id"
  let platformLen ← rvLen .platLen "platform length"
  let platform ← rbytes .plat platformLen
  let queueId ← rv32 .queue "queue_id"
  let gameStartMs ← addDeltaI64 state.gameStartMs (← rz .startD) "game_start_ms"
  let durationS ← rv32 .dur "duration_s"
  let blueWon ← rv .blue
  ensure (blueWon ≤ 1) "blue_won must be 0 or 1"
  let gameVersionLen ← rvLen .gvLen "game_version length"
  let gameVersion ← rbytes .gv gameVersionLen
  let patchMajor ← rv32 .pmaj "patch_major"
  let patchMinor ← rv32 .pmin "patch_minor"
  let nParts ← rvLen .nparts "participant count"
  let participants ← decodeLoop decodeParticipant nParts 0
  let tlPresent ← rv .tlPresent
  ensure (tlPresent ≤ 1) "tl_present must be 0 or 1"
  let timeline ← decodePresent tlPresent
  let nBans ← rvLen .bansN "ban count"
  let bans ← decodeLoop decodeBan nBans 0
  pure (putFieldVarint 1 schema.toUInt64 ++ putFieldVarint 2 gameId ++ putFieldBytes 3 platform ++
      putFieldVarint 4 queueId.toUInt64 ++ putFieldInt64 5 gameStartMs ++
      putFieldVarint 6 durationS.toUInt64 ++ putFieldVarint 7 blueWon ++
      putFieldBytes 8 gameVersion ++ putFieldVarint 9 patchMajor.toUInt64 ++
      putFieldVarint 10 patchMinor.toUInt64 ++ participants ++ timeline ++
      putFieldPackedBody 13 bans,
    { gameId := gameId, gameStartMs := gameStartMs })

/-! ## Blocks -/

/-- The record loop, at record `idx` with `left` records to go. -/
def decodeRecords : Nat → Nat → BlockState → Read (List Bytes)
  | 0, _, _ => pure []
  | left + 1, idx, state => do
      let (record, state) ← fun readers =>
        context s!"decode record {idx}" (decodeRecord state readers)
      let rest ← decodeRecords left (idx + 1) state
      pure (record :: rest)

def decodeBlock (payload : Bytes) : Except Error (List Bytes) := do
  let manifest ← Manifest.parse payload
  let cols ← ColReaders.new manifest.columns manifest.statCols manifest.runeCols
  let (records, cols) ← decodeRecords manifest.records 0 {} cols
  cols.ensureDone
  pure records

section EncodeBlock

/- `MatchRecord::decode` of the protobuf library. -/
variable (decode : Bytes → Except Error MatchRecord)

/-- The record loop of `encode_block`. -/
def encodeRecords : List Bytes → Nat → Cols → BlockState → Except Error (Cols × BlockState)
  | [], _, cols, state => .ok (cols, state)
  | raw :: raws, idx, cols, state => do
      let record ← context s!"decode input record {idx}" (decode raw)
      let (cols, state) ← context s!"encode input record {idx}" (encodeRecord record cols state)
      encodeRecords raws (idx + 1) cols state

/-- The first position where two buffers differ, if any. -/
def firstDiff (want got : Bytes) : Option Nat :=
  ((want.zip got).findIdx? fun pair => pair.1 ≠ pair.2).or
    (if want.length ≠ got.length then some (min want.length got.length) else none)

def mismatchError (idx : Nat) (want got : Bytes) : String :=
  match firstDiff want got with
  | some pos =>
      s!"columnar self-check mismatch at record {idx}: input {want.length} bytes decoded " ++
        s!"{got.length} bytes first_diff={pos}"
  | none => s!"columnar self-check mismatch at record {idx}"

/-- The comparison loop of the self-check. -/
def compareRecords : List (Bytes × Bytes) → Nat → Except Error Unit
  | [], _ => .ok ()
  | (want, got) :: pairs, idx =>
      if want ≠ got then bail (mismatchError idx want got) else compareRecords pairs (idx + 1)

def encodeBlock (raws : List Bytes) : Except Error Bytes := do
  let (cols, _) ← encodeRecords decode raws 0 .new {}
  let payload ← encodePayload raws.length cols
  let rebuilt ← context "self-check decode failed" (decodeBlock payload)
  ensure (rebuilt.length = raws.length)
    (s!"self-check record count mismatch: input {raws.length} decoded {rebuilt.length}")
  compareRecords (raws.zip rebuilt) 0
  pure payload

end EncodeBlock

end LolCrawler.Columnar
