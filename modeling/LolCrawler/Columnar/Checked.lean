import LolCrawler.Columnar.Decode
import LolCrawler.Foundation.Panics

/-! # The columnar decoder with its panics

The decoder again, with the columns in vectors and with every index, slice,
unchecked addition and shift of the source as an operation that panics out of its
range. A record is returned as its `Contents`; what is written out for it are
their canonical bytes.
-/

namespace LolCrawler.Columnar

open Foundation

/-- What the decoder reads for a record: a `MatchRecord` whose texts may be any bytes. -/
structure Contents where
  schemaVersion : UInt32
  gameId : UInt64
  platform : Bytes
  queueId : UInt32
  gameStartMs : Int64
  durationS : UInt32
  blueWon : Bool
  gameVersion : Bytes
  patchMajor : UInt32
  patchMinor : UInt32
  participants : List Participant
  timeline : Option TimelineLite
  bans : List UInt32
deriving DecidableEq

open Proto in
/-- The canonical bytes of the contents. -/
def Contents.encodeToVec (contents : Contents) : Bytes :=
  uint32Field 1 contents.schemaVersion ++ varintField 2 contents.gameId ++
    bytesField 3 contents.platform ++ uint32Field 4 contents.queueId ++
    int64Field 5 contents.gameStartMs ++ uint32Field 6 contents.durationS ++
    boolField 7 contents.blueWon ++ bytesField 8 contents.gameVersion ++
    uint32Field 9 contents.patchMajor ++ uint32Field 10 contents.patchMinor ++
    contents.participants.flatMap
      (fun participant => lengthDelimited 11 participant.encodeToVec) ++
    (contents.timeline.elim [] fun timeline => lengthDelimited 12 timeline.encodeToVec) ++
    packedUint32 13 contents.bans

/-- The contents of a record, with its texts as bytes. -/
def MatchRecord.contents (record : MatchRecord) : Contents where
  schemaVersion := record.schemaVersion
  gameId := record.gameId
  platform := asBytes record.platform
  queueId := record.queueId
  gameStartMs := record.gameStartMs
  durationS := record.durationS
  blueWon := record.blueWon
  gameVersion := asBytes record.gameVersion
  patchMajor := record.patchMajor
  patchMinor := record.patchMinor
  participants := record.participants
  timeline := record.timeline
  bans := record.bans

namespace Checked

/-- `a + b` on `usize`. -/
def add (a b : Nat) : Outcome Nat := plus usizeBound a b

/-! ## The manifest -/

/-- The loop of `read_varint_at`, at round `idx` with `rounds` to go. -/
def readVarintLoop (bytes : Bytes) (name : String) :
    Nat → Nat → Nat → UInt64 → Outcome (UInt64 × Nat)
  | 0, _, _, _ => (bail s!"varint too long in {name}" : Except Error _)
  | rounds + 1, idx, pos, out => do
      ensure (pos < bytes.length) s!"truncated varint in {name}"
      let byte ← index bytes pos
      let pos ← add pos 1
      if idx = 9 ∧ byte &&& 0xfe ≠ 0 then
        (bail s!"varint overflow in {name}" : Except Error _)
      else
        let bits ← shl (byte &&& 0x7f).toUInt64 (idx * 7)
        let out := out ||| bits
        if byte &&& 0x80 = 0 then pure (out, pos)
        else readVarintLoop bytes name rounds (idx + 1) pos out

def readVarintAt (bytes : Bytes) (pos : Nat) (name : String) : Outcome (UInt64 × Nat) :=
  readVarintLoop bytes name 10 0 pos 0

/-- The `column length` loop; `idx` counts the lengths read. -/
def readLengths (payload : Bytes) : Nat → Nat → Nat → Outcome (List Nat × Nat)
  | 0, _, pos => pure ([], pos)
  | left + 1, idx, pos => do
      let (raw, pos) ← readVarintAt payload pos "column length"
      let len ← context s!"column {idx} length" (toUsize raw "column length")
      let (lengths, pos) ← readLengths payload left (idx + 1) pos
      pure (len :: lengths, pos)

/-- The slices of the column data, from `off` on. -/
def slices (payload : Bytes) : List Nat → Nat → Outcome (List Bytes)
  | [], _ => pure []
  | len :: lengths, off => do
      let last ← add off len
      let column ← slice payload off last
      let columns ← slices payload lengths last
      pure (column :: columns)

/-- `Manifest::parse`. -/
def parse (payload : Bytes) : Outcome Manifest := do
  let header ← add magic.length 1
  ensure (header ≤ payload.length) "truncated columnar header"
  let start ← slice payload 0 magic.length
  ensure (start = magic) "bad columnar magic"
  let revision ← index payload magic.length
  ensure (revision = version) "unsupported columnar version"
  let pos ← add magic.length 1
  let (records, pos) ← readVarintAt payload pos "record count"
  let records ← toUsize records "records"
  let (statCols, pos) ← readVarintAt payload pos "stat column count"
  let statCols ← toUsize statCols "stat columns"
  let (runeCols, pos) ← readVarintAt payload pos "rune column count"
  let runeCols ← toUsize runeCols "rune columns"
  let dynamicCols ← orBail "too many dynamic column streams" (checkedAdd statCols runeCols)
  let totalCols ← orBail "too many column streams" (checkedAdd nmisc dynamicCols)
  ensure (totalCols ≤ payload.length - pos) "truncated column manifest"
  let (lengths, dataStart) ← readLengths payload totalCols 0 pos
  let dataLen ← orBail "column lengths overflow" (lengths.foldlM checkedAdd 0)
  let dataEnd ← orBail "column lengths overflow" (checkedAdd dataStart dataLen)
  ensure (dataEnd ≤ payload.length) "truncated column data"
  ensure (dataEnd = payload.length) "trailing bytes after column data"
  let columns ← slices payload lengths dataStart
  pure { records := records, statCols := statCols, runeCols := runeCols, columns := columns }

/-! ## Cursors -/

def varint (reader : ColReader) (name : String) : Outcome (UInt64 × ColReader) := do
  let (value, pos) ← readVarintAt reader.bytes reader.pos name
  pure (value, { reader with pos := pos })

/-- `ColReader::bytes`. -/
def take (reader : ColReader) (len : Nat) (name : String) : Outcome (Bytes × ColReader) := do
  let last ← orBail s!"byte length overflow in {name}" (checkedAdd reader.pos len)
  ensure (last ≤ reader.bytes.length) s!"truncated bytes in {name}"
  let out ← slice reader.bytes reader.pos last
  pure (out, { reader with pos := last })

structure ColReaders where
  fixed : List ColReader
  stat : List ColReader
  rune : List ColReader

/-- Steps that read columns, and may fail or panic. -/
abbrev Read := StateT ColReaders Outcome

/-- `ColReaders::new`. -/
def newReaders (columns : List Bytes) (statCols runeCols : Nat) : Outcome ColReaders := do
  let dynamicStart ← add nmisc statCols
  let total ← add dynamicStart runeCols
  ensure (columns.length = total) "column manifest/count mismatch"
  let fixed ← slice columns 0 nmisc
  let runeStart ← add nmisc statCols
  let stat ← slice columns nmisc runeStart
  let rune ← slice columns runeStart columns.length
  pure { fixed := fixed.map .new, stat := stat.map .new, rune := rune.map .new }

/-- The constant of a column: its place in the vector of fixed columns. -/
def place (col : Col) : Nat := Col.all.idxOf col

/-- `FIXED_NAMES`. -/
def fixedNames : List String := Col.all.map Col.name

def rv (col : Col) : Read UInt64 := fun cols => do
  let reader ← index cols.fixed (place col)
  let name ← index fixedNames (place col)
  let (value, reader) ← varint reader name
  pure (value, { cols with fixed := cols.fixed.set (place col) reader })

def rz (col : Col) : Read Int64 := do
  pure (unzigzagI64 (← rv col))

def rbytes (col : Col) (len : Nat) : Read Bytes := fun cols => do
  let reader ← index cols.fixed (place col)
  let name ← index fixedNames (place col)
  let (bytes, reader) ← take reader len name
  pure (bytes, { cols with fixed := cols.fixed.set (place col) reader })

def statZ (idx : Nat) : Read Int64 := fun cols => do
  let col ← orBail s!"missing stat column {idx}" cols.stat[idx]?
  let (value, reader) ← varint col "stat"
  pure (unzigzagI64 value, { cols with stat := cols.stat.set idx reader })

def runeV (idx : Nat) : Read UInt64 := fun cols => do
  let col ← orBail s!"missing rune column {idx}" cols.rune[idx]?
  let (value, reader) ← varint col "rune"
  pure (value, { cols with rune := cols.rune.set idx reader })

/-- The loop of `ensure_done` over the fixed columns, from `idx` on. -/
def ensureFixedDone : List ColReader → Nat → Outcome Unit
  | [], _ => pure ()
  | reader :: readers, idx =>
      if reader.done then ensureFixedDone readers (idx + 1)
      else do
        let name ← index fixedNames idx
        (bail s!"unconsumed bytes in column {name}" : Except Error _)

def ensureDone (cols : ColReaders) : Outcome Unit := do
  ensureFixedDone cols.fixed 0
  Columnar.ColReaders.ensureDynamicDone "stat" cols.stat 0
  Columnar.ColReaders.ensureDynamicDone "rune" cols.rune 0

def rv32 (col : Col) (name : String) : Read UInt32 := do
  readU32 (← rv col) name

def rvLen (col : Col) (name : String) : Read Nat := do
  toUsize (← rv col) name

/-! ## Records -/

/-- A loop over `idx` with `left` rounds to go, whose rounds give items. -/
def decodeLoop {α : Type} (body : Nat → Read α) : Nat → Nat → Read (List α)
  | 0, _ => pure []
  | left + 1, idx => do
      let item ← body idx
      let rest ← decodeLoop body left (idx + 1)
      pure (item :: rest)

def decodeRune (idx : Nat) : Read UInt32 := do
  readU32 (← runeV idx) "rune"

def decodeParticipant (_ : Nat) : Read Participant := do
  let playerId ← rv32 .pPlayer "player_id"
  let championId ← rv32 .pChamp "champion_id"
  let position ← rv32 .pPos "position"
  let spell1 ← rv32 .pSp1 "spell1"
  let spell2 ← rv32 .pSp2 "spell2"
  let nRunes ← rvLen .pRunesN "rune count"
  let runes ← decodeLoop decodeRune nRunes 0
  let nStats ← rvLen .pStatsN "stat count"
  let stats ← decodeLoop statZ nStats 0
  pure { playerId := playerId, championId := championId, position := position,
         spell1 := spell1, spell2 := spell2, runes := runes, stats := stats }

/-- The value loop of series `idx`, at `slot` with `left` values to go. -/
def decodeValues (vCol : Col) (name : String) (prevSeries : List (List UInt32)) (idx : Nat) :
    Nat → Nat → Read (List UInt32)
  | 0, _ => pure []
  | left + 1, slot => do
      let prev ← index prevSeries idx
      let value ← addDeltaU32 (prev.getD slot 0) (← rz vCol) name
      let rest ← decodeValues vCol name prevSeries idx left (slot + 1)
      pure (value :: rest)

/-- The series loop from series `idx` on: `prev_series` after it. -/
def decodeSeriesAll : List (UInt32 × Col × Col × String) → Nat → List (List UInt32) →
    Read (List (List UInt32))
  | [], _, prevSeries => pure prevSeries
  | (_, nCol, vCol, name) :: series, idx, prevSeries => do
      let nValues ← rvLen nCol name
      let values ← decodeValues vCol name prevSeries idx nValues 0
      let prevSeries ← store prevSeries idx values
      decodeSeriesAll series (idx + 1) prevSeries

/-- The frame whose series were just read. -/
def frameOf (minute : UInt32) (series : List (List UInt32)) : MinuteFrame where
  minute := minute
  totalGold := series.getD 0 []
  xp := series.getD 1 []
  cs := series.getD 2 []
  dmgToChamps := series.getD 3 []

def decodeFrames : Nat → List (List UInt32) → Read (List MinuteFrame)
  | 0, _ => pure []
  | left + 1, prevSeries => do
      let minute ← rv32 .fMinute "minute"
      let prevSeries ← decodeSeriesAll frameSeries 0 prevSeries
      let rest ← decodeFrames left prevSeries
      pure (frameOf minute prevSeries :: rest)

/-- An event loop of the timeline. -/
def decodeEvents {Event : Type} (tCol : Col) (tName : String) (others : UInt32 → Read Event) :
    Nat → UInt32 → Read (List Event)
  | 0, _ => pure []
  | left + 1, prevT => do
      let t ← addDeltaU32 prevT (← rz tCol) tName
      let event ← others t
      let rest ← decodeEvents tCol tName others left t
      pure (event :: rest)

def decodeKill (t : UInt32) : Read KillEvent := do
  let killer ← rv32 .kKiller "killer"
  let victim ← rv32 .kVictim "victim"
  let assistMask ← rv32 .kMask "assist_mask"
  let x ← rv32 .kX "kill x"
  let y ← rv32 .kY "kill y"
  pure { tS := t, killer := killer, victim := victim, assistMask := assistMask, x := x, y := y }

def decodeObjective (t : UInt32) : Read ObjectiveEvent := do
  let kind ← rv32 .oKind "objective kind"
  let killer ← rv32 .oKiller "objective killer"
  let losingTeam ← rv32 .oTeam "objective team"
  let lane ← rv32 .oLane "objective lane"
  pure { tS := t, kind := kind, killer := killer, losingTeam := losingTeam, lane := lane }

def decodeWard (t : UInt32) : Read WardEvent := do
  let kind ← rv32 .wKind "ward kind"
  let participant ← rv32 .wPart "ward participant"
  pure { tS := t, kind := kind, participant := participant }

def decodeTimeline : Read TimelineLite := do
  let nFrames ← rvLen .nframes "frame count"
  let frames ← decodeFrames nFrames [[], [], [], []]
  let nKills ← rvLen .nkills "kill count"
  let kills ← decodeEvents .kT "kill timestamp" decodeKill nKills 0
  let nObjs ← rvLen .nobjs "objective count"
  let objectives ← decodeEvents .oT "objective timestamp" decodeObjective nObjs 0
  let nWards ← rvLen .nwards "ward count"
  let wards ← decodeEvents .wT "ward timestamp" decodeWard nWards 0
  pure { frames := frames, kills := kills, objectives := objectives, wards := wards }

/-- The timeline, if there is one. -/
def decodePresent (tlPresent : UInt64) : Read (Option TimelineLite) :=
  if tlPresent = 1 then do pure (some (← decodeTimeline)) else pure none

def decodeBan (_ : Nat) : Read UInt32 := rv32 .bans "ban"

def decodeRecord (state : BlockState) : Read (Contents × BlockState) := do
  let schema ← rv32 .schema "schema_version"
  let gameId ← addDeltaU64 state.gameId (← rz .gidD) "game_id"
  let platformLen ← rvLen .platLen "platform length"
  let platform ← rbytes .plat platformLen
  let queueId ← rv32 .queue "queue_id"
  let gameStartMs ← addDeltaI64 state.gameStartMs (← rz .startD) "game_start_ms"
  let durationS ← rv32 .dur "duration_s"
  let blueWon ← rv .blue
  ensure (blueWon ≤ 1) "blue_won must be 0 or 1"
  let gameVersionLen ← rvLen .gvLen "game_version length"
  let gameVersion ← rbytes .gv gameVersionLen
  let patchMajor ← rv32 .pmaj "patch_major"
  let patchMinor ← rv32 .pmin "patch_minor"
  let nParts ← rvLen .nparts "participant count"
  let participants ← decodeLoop decodeParticipant nParts 0
  let tlPresent ← rv .tlPresent
  ensure (tlPresent ≤ 1) "tl_present must be 0 or 1"
  let timeline ← decodePresent tlPresent
  let nBans ← rvLen .bansN "ban count"
  let bans ← decodeLoop decodeBan nBans 0
  pure ({ schemaVersion := schema, gameId := gameId, platform := platform, queueId := queueId,
          gameStartMs := gameStartMs, durationS := durationS, blueWon := blueWon = 1,
          gameVersion := gameVersion, patchMajor := patchMajor, patchMinor := patchMinor,
          participants := participants, timeline := timeline, bans := bans },
    { gameId := gameId, gameStartMs := gameStartMs })

/-! ## Blocks -/

/-- The record loop, at record `idx` with `left` records to go. -/
def decodeRecords : Nat → Nat → BlockState → Read (List Contents)
  | 0, _, _ => pure []
  | left + 1, idx, state => do
      let (record, state) ← fun cols =>
        withContext s!"decode record {idx}" (decodeRecord state cols)
      let rest ← decodeRecords left (idx + 1) state
      pure (record :: rest)

def decodeBlock (payload : Bytes) : Outcome (List Contents) := do
  let manifest ← parse payload
  let cols ← newReaders manifest.columns manifest.statCols manifest.runeCols
  let (records, cols) ← decodeRecords manifest.records 0 {} cols
  ensureDone cols
  pure records

end Checked

end LolCrawler.Columnar
