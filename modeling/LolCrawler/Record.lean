import LolCrawler.Foundation.Errors

/-! # Match records and their wire format

The message types of the archive and the proto3 bytes their encoder writes:
fields in tag order, scalars omitted at their default, repeated scalars packed,
strings as UTF-8.
-/

namespace LolCrawler

open Foundation

structure Participant where
  playerId : UInt32
  championId : UInt32
  position : UInt32
  spell1 : UInt32
  spell2 : UInt32
  runes : List UInt32
  stats : List Int64
deriving DecidableEq

structure MinuteFrame where
  minute : UInt32
  totalGold : List UInt32
  xp : List UInt32
  cs : List UInt32
  dmgToChamps : List UInt32
deriving DecidableEq

structure KillEvent where
  tS : UInt32
  killer : UInt32
  victim : UInt32
  assistMask : UInt32
  x : UInt32
  y : UInt32
deriving DecidableEq

structure ObjectiveEvent where
  tS : UInt32
  kind : UInt32
  killer : UInt32
  losingTeam : UInt32
  lane : UInt32
deriving DecidableEq

structure WardEvent where
  tS : UInt32
  kind : UInt32
  participant : UInt32
deriving DecidableEq

structure TimelineLite where
  frames : List MinuteFrame
  kills : List KillEvent
  objectives : List ObjectiveEvent
  wards : List WardEvent
deriving DecidableEq

structure MatchRecord where
  schemaVersion : UInt32
  gameId : UInt64
  platform : String
  queueId : UInt32
  gameStartMs : Int64
  durationS : UInt32
  blueWon : Bool
  gameVersion : String
  patchMajor : UInt32
  patchMinor : UInt32
  participants : List Participant
  timeline : Option TimelineLite
  bans : List UInt32
deriving DecidableEq

/-- `str::as_bytes`. -/
def asBytes (text : String) : Bytes := text.toUTF8.data.toList

namespace Proto

/-- The bytes of a varint: at most ten. -/
def encodeVarintLoop : Nat → UInt64 → Bytes
  | 0, _ => []
  | rounds + 1, value =>
      if value < 0x80 then [value.toUInt8]
      else ((value &&& 0x7f) ||| 0x80).toUInt8 :: encodeVarintLoop rounds (value >>> 7)

def encodeVarint (value : UInt64) : Bytes := encodeVarintLoop 10 value

/-- A field key: tag and wire type (0 varint, 2 length-delimited). -/
def encodeKey (tag wireType : UInt64) : Bytes := encodeVarint ((tag <<< 3) ||| wireType)

/-- A scalar field, omitted at zero. -/
def varintField (tag value : UInt64) : Bytes :=
  if value = 0 then [] else encodeKey tag 0 ++ encodeVarint value

/-- A length-delimited field. -/
def lengthDelimited (tag : UInt64) (body : Bytes) : Bytes :=
  encodeKey tag 2 ++ encodeVarint (.ofNat body.length) ++ body

def uint32Field (tag : UInt64) (value : UInt32) : Bytes := varintField tag value.toUInt64

def int64Field (tag : UInt64) (value : Int64) : Bytes := varintField tag value.toUInt64

def boolField (tag : UInt64) (value : Bool) : Bytes := varintField tag (if value then 1 else 0)

/-- A string or packed field, omitted when empty. -/
def bytesField (tag : UInt64) (body : Bytes) : Bytes :=
  if body = [] then [] else lengthDelimited tag body

def zigzag (value : Int64) : UInt64 := ((value <<< 1) ^^^ (value >>> 63)).toUInt64

def packedUint32 (tag : UInt64) (values : List UInt32) : Bytes :=
  bytesField tag (values.flatMap fun value => encodeVarint value.toUInt64)

def packedSint64 (tag : UInt64) (values : List Int64) : Bytes :=
  bytesField tag (values.flatMap fun value => encodeVarint (zigzag value))

end Proto

open Proto

def Participant.encodeToVec (participant : Participant) : Bytes :=
  uint32Field 1 participant.playerId ++ uint32Field 2 participant.championId ++
    uint32Field 3 participant.position ++ uint32Field 4 participant.spell1 ++
    uint32Field 5 participant.spell2 ++ packedUint32 6 participant.runes ++
    packedSint64 7 participant.stats

def MinuteFrame.encodeToVec (frame : MinuteFrame) : Bytes :=
  uint32Field 1 frame.minute ++ packedUint32 2 frame.totalGold ++ packedUint32 3 frame.xp ++
    packedUint32 4 frame.cs ++ packedUint32 5 frame.dmgToChamps

def KillEvent.encodeToVec (kill : KillEvent) : Bytes :=
  uint32Field 1 kill.tS ++ uint32Field 2 kill.killer ++ uint32Field 3 kill.victim ++
    uint32Field 4 kill.assistMask ++ uint32Field 5 kill.x ++ uint32Field 6 kill.y

def ObjectiveEvent.encodeToVec (objective : ObjectiveEvent) : Bytes :=
  uint32Field 1 objective.tS ++ uint32Field 2 objective.kind ++ uint32Field 3 objective.killer ++
    uint32Field 4 objective.losingTeam ++ uint32Field 5 objective.lane

def WardEvent.encodeToVec (ward : WardEvent) : Bytes :=
  uint32Field 1 ward.tS ++ uint32Field 2 ward.kind ++ uint32Field 3 ward.participant

def TimelineLite.encodeToVec (timeline : TimelineLite) : Bytes :=
  timeline.frames.flatMap (fun frame => lengthDelimited 1 frame.encodeToVec) ++
    timeline.kills.flatMap (fun kill => lengthDelimited 2 kill.encodeToVec) ++
    timeline.objectives.flatMap (fun objective => lengthDelimited 3 objective.encodeToVec) ++
    timeline.wards.flatMap (fun ward => lengthDelimited 4 ward.encodeToVec)

/-- `Message::encode_to_vec`. -/
def MatchRecord.encodeToVec (record : MatchRecord) : Bytes :=
  uint32Field 1 record.schemaVersion ++ varintField 2 record.gameId ++
    bytesField 3 (asBytes record.platform) ++ uint32Field 4 record.queueId ++
    int64Field 5 record.gameStartMs ++ uint32Field 6 record.durationS ++
    boolField 7 record.blueWon ++ bytesField 8 (asBytes record.gameVersion) ++
    uint32Field 9 record.patchMajor ++ uint32Field 10 record.patchMinor ++
    record.participants.flatMap (fun participant => lengthDelimited 11 participant.encodeToVec) ++
    (record.timeline.elim [] fun timeline => lengthDelimited 12 timeline.encodeToVec) ++
    packedUint32 13 record.bans

end LolCrawler
