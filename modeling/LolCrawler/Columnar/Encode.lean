import LolCrawler.Columnar.Codec
import LolCrawler.Foundation.Streams
import LolCrawler.Record

/-! # The columnar encoder

A block is transposed into 50 fixed columns and one dynamic column per stat and
rune slot. `Cols.streams` reads the columns as interleaved streams, and every
encoding step appends its own part to them (`encodeRecord_streams`).
-/

namespace LolCrawler.Columnar

open Foundation

/-- The fixed columns, in stream order. -/
inductive Col where
  | schema | gidD | platLen | plat | queue | startD | dur | blue | gvLen | gv | pmaj | pmin
  | bansN | bans | nparts | pPlayer | pChamp | pPos | pSp1 | pSp2 | pRunesN | pStatsN
  | tlPresent | nframes | fMinute | fGoldN | fGold | fXpN | fXp | fCsN | fCs | fDmgN | fDmg
  | nkills | kT | kKiller | kVictim | kMask | kX | kY | nobjs | oT | oKind | oKiller | oTeam
  | oLane | nwards | wT | wKind | wPart
deriving DecidableEq

namespace Col

/-- All fixed columns in stream order. -/
def all : List Col :=
  [.schema, .gidD, .platLen, .plat, .queue, .startD, .dur, .blue, .gvLen, .gv, .pmaj, .pmin,
    .bansN, .bans, .nparts, .pPlayer, .pChamp, .pPos, .pSp1, .pSp2, .pRunesN, .pStatsN,
    .tlPresent, .nframes, .fMinute, .fGoldN, .fGold, .fXpN, .fXp, .fCsN, .fCs, .fDmgN, .fDmg,
    .nkills, .kT, .kKiller, .kVictim, .kMask, .kX, .kY, .nobjs, .oT, .oKind, .oKiller, .oTeam,
    .oLane, .nwards, .wT, .wKind, .wPart]

/-- `FIXED_NAMES`. -/
def name : Col → String
  | .schema => "schema"
  | .gidD => "game_id_d"
  | .platLen => "plat_len"
  | .plat => "plat"
  | .queue => "queue"
  | .startD => "start_d"
  | .dur => "dur"
  | .blue => "blue_won"
  | .gvLen => "gv_len"
  | .gv => "gv"
  | .pmaj => "patch_maj"
  | .pmin => "patch_min"
  | .bansN => "bans_n"
  | .bans => "bans"
  | .nparts => "n_parts"
  | .pPlayer => "p_player"
  | .pChamp => "p_champ"
  | .pPos => "p_pos"
  | .pSp1 => "p_sp1"
  | .pSp2 => "p_sp2"
  | .pRunesN => "p_runes_n"
  | .pStatsN => "p_stats_n"
  | .tlPresent => "tl_present"
  | .nframes => "n_frames"
  | .fMinute => "f_minute"
  | .fGoldN => "f_gold_n"
  | .fGold => "f_gold"
  | .fXpN => "f_xp_n"
  | .fXp => "f_xp"
  | .fCsN => "f_cs_n"
  | .fCs => "f_cs"
  | .fDmgN => "f_dmg_n"
  | .fDmg => "f_dmg"
  | .nkills => "n_kills"
  | .kT => "k_t"
  | .kKiller => "k_killer"
  | .kVictim => "k_victim"
  | .kMask => "k_mask"
  | .kX => "k_x"
  | .kY => "k_y"
  | .nobjs => "n_objs"
  | .oT => "o_t"
  | .oKind => "o_kind"
  | .oKiller => "o_killer"
  | .oTeam => "o_team"
  | .oLane => "o_lane"
  | .nwards => "n_wards"
  | .wT => "w_t"
  | .wKind => "w_kind"
  | .wPart => "w_part"

end Col

/-- A column of the block: fixed, or the dynamic one of a stat or rune slot. -/
inductive Column where
  | fixed (col : Col)
  | stat (idx : Nat)
  | rune (idx : Nat)
deriving DecidableEq

/-- The columns read as streams. -/
abbrev ColStreams := Streams Column UInt8

structure Cols where
  fixed : Col → Bytes
  stat : List Bytes
  rune : List Bytes

/-- Append to one of the dynamic columns, adding empty columns up to it. -/
def pushAt (columns : List Bytes) (idx : Nat) (bytes : Bytes) : List Bytes :=
  (columns ++ List.replicate (idx + 1 - columns.length) []).modify idx (· ++ bytes)

namespace Cols

def new : Cols := ⟨fun _ => [], [], []⟩

def wbytes (cols : Cols) (col : Col) (bytes : Bytes) : Cols :=
  { cols with fixed := Function.update cols.fixed col (cols.fixed col ++ bytes) }

def wv (cols : Cols) (col : Col) (v : UInt64) : Cols := cols.wbytes col (writeVarint v)

def wz (cols : Cols) (col : Col) (v : Int64) : Cols := cols.wv col (zigzagI64 v)

/-- `Cols::rune`. -/
def writeRune (cols : Cols) (idx : Nat) (v : UInt64) : Cols :=
  { cols with rune := pushAt cols.rune idx (writeVarint v) }

def statZ (cols : Cols) (idx : Nat) (v : Int64) : Cols :=
  { cols with stat := pushAt cols.stat idx (writeVarint (zigzagI64 v)) }

/-- A run of `u32` fields, each in its own column. -/
def wvAll (cols : Cols) (fields : List (Col × UInt32)) : Cols :=
  fields.foldl (fun cols field => cols.wv field.1 field.2.toUInt64) cols

/-- All columns in stream order. -/
def columns (cols : Cols) : List Bytes := Col.all.map cols.fixed ++ cols.stat ++ cols.rune

end Cols

/-- Delta state of a block; starts from zero. -/
structure BlockState where
  gameId : UInt64 := 0
  gameStartMs : Int64 := 0
deriving DecidableEq

def Participant.fields (participant : Participant) : List (Col × UInt32) :=
  [(.pPlayer, participant.playerId), (.pChamp, participant.championId),
    (.pPos, participant.position), (.pSp1, participant.spell1), (.pSp2, participant.spell2)]

def encodeParticipant (cols : Cols) (participant : Participant) : Cols :=
  let cols := cols.wvAll (Participant.fields participant)
  let cols := cols.wv .pRunesN (.ofNat participant.runes.length)
  let cols := participant.runes.zipIdx.foldl
    (fun cols rune => cols.writeRune rune.2 rune.1.toUInt64) cols
  let cols := cols.wv .pStatsN (.ofNat participant.stats.length)
  participant.stats.zipIdx.foldl (fun cols stat => cols.statZ stat.2 stat.1) cols

/-- The four series of a frame with their columns. -/
def MinuteFrame.series (frame : MinuteFrame) : List (Col × Col × List UInt32) :=
  [(.fGoldN, .fGold, frame.totalGold), (.fXpN, .fXp, frame.xp), (.fCsN, .fCs, frame.cs),
    (.fDmgN, .fDmg, frame.dmgToChamps)]

/-- One series, as differences to the same slots of the frame before. -/
def encodeSeries (nCol vCol : Col) (values prev : List UInt32) (cols : Cols) : Cols :=
  values.zipIdx.foldl (fun cols value => cols.wz vCol (deltaU32 value.1 (prev.getD value.2 0)))
    (cols.wv nCol (.ofNat values.length))

/-- The series loop; `prevSeries` holds the values of the frame before. -/
def encodeSeriesAll : List (Col × Col × List UInt32) → List (List UInt32) → Cols → Cols
  | [], _, cols => cols
  | (nCol, vCol, values) :: series, prevSeries, cols =>
      encodeSeriesAll series prevSeries.tail
        (encodeSeries nCol vCol values (prevSeries.headD []) cols)

def encodeFrames : List MinuteFrame → List (List UInt32) → Cols → Cols
  | [], _, cols => cols
  | frame :: frames, prevSeries, cols =>
      encodeFrames frames ((MinuteFrame.series frame).map fun series => series.2.2)
        (encodeSeriesAll (MinuteFrame.series frame) prevSeries
          (cols.wv .fMinute frame.minute.toUInt64))

section Events

variable {Event : Type} (tCol : Col) (time : Event → UInt32) (fields : Event → List (Col × UInt32))

/-- A run of events: the timestamp as a difference, the other fields as they are. -/
def encodeEvents : List Event → UInt32 → Cols → Cols
  | [], _, cols => cols
  | event :: events, prevT, cols =>
      encodeEvents events (time event)
        ((cols.wz tCol (deltaU32 (time event) prevT)).wvAll (fields event))

end Events

def KillEvent.fields (kill : KillEvent) : List (Col × UInt32) :=
  [(.kKiller, kill.killer), (.kVictim, kill.victim), (.kMask, kill.assistMask), (.kX, kill.x),
    (.kY, kill.y)]

def ObjectiveEvent.fields (objective : ObjectiveEvent) : List (Col × UInt32) :=
  [(.oKind, objective.kind), (.oKiller, objective.killer), (.oTeam, objective.losingTeam),
    (.oLane, objective.lane)]

def WardEvent.fields (ward : WardEvent) : List (Col × UInt32) :=
  [(.wKind, ward.kind), (.wPart, ward.participant)]

def encodeTimeline (timeline : TimelineLite) (cols : Cols) : Cols :=
  let cols := cols.wv .nframes (.ofNat timeline.frames.length)
  let cols := encodeFrames timeline.frames [[], [], [], []] cols
  let cols := cols.wv .nkills (.ofNat timeline.kills.length)
  let cols := encodeEvents .kT KillEvent.tS KillEvent.fields timeline.kills 0 cols
  let cols := cols.wv .nobjs (.ofNat timeline.objectives.length)
  let cols := encodeEvents .oT ObjectiveEvent.tS ObjectiveEvent.fields timeline.objectives 0 cols
  let cols := cols.wv .nwards (.ofNat timeline.wards.length)
  encodeEvents .wT WardEvent.tS WardEvent.fields timeline.wards 0 cols

def encodeRecord (record : MatchRecord) (cols : Cols) (state : BlockState) :
    Except Error (Cols × BlockState) := do
  let cols := cols.wv .schema record.schemaVersion.toUInt64
  let gidD ← deltaU64 record.gameId state.gameId "game_id"
  let cols := cols.wz .gidD gidD
  let cols := cols.wv .platLen (.ofNat (asBytes record.platform).length)
  let cols := cols.wbytes .plat (asBytes record.platform)
  let cols := cols.wv .queue record.queueId.toUInt64
  let startD ← deltaI64 record.gameStartMs state.gameStartMs "game_start_ms"
  let cols := cols.wz .startD startD
  let cols := cols.wv .dur record.durationS.toUInt64
  let cols := cols.wv .blue (if record.blueWon then 1 else 0)
  let cols := cols.wv .gvLen (.ofNat (asBytes record.gameVersion).length)
  let cols := cols.wbytes .gv (asBytes record.gameVersion)
  let cols := cols.wv .pmaj record.patchMajor.toUInt64
  let cols := cols.wv .pmin record.patchMinor.toUInt64
  let cols := cols.wv .bansN (.ofNat record.bans.length)
  let cols := record.bans.foldl (fun cols ban => cols.wv .bans ban.toUInt64) cols
  let cols := cols.wv .nparts (.ofNat record.participants.length)
  let cols := record.participants.foldl encodeParticipant cols
  let cols := cols.wv .tlPresent (if record.timeline.isSome then 1 else 0)
  let cols := record.timeline.elim cols fun timeline => encodeTimeline timeline cols
  pure (cols, { gameId := record.gameId, gameStartMs := record.gameStartMs })

/-- Number of fixed columns. -/
def nmisc : Nat := 50

/-- `b"LCOL"`. -/
def magic : Bytes := [0x4c, 0x43, 0x4f, 0x4c]

def version : UInt8 := 1

/-- Header, column lengths and column data. -/
def payloadBytes (records : Nat) (cols : Cols) : Bytes :=
  magic ++ version :: (writeVarint (.ofNat records) ++ (writeVarint (.ofNat cols.stat.length) ++
    (writeVarint (.ofNat cols.rune.length) ++
      (cols.columns.flatMap (fun col => writeVarint (.ofNat col.length)) ++
        cols.columns.flatten))))

def encodePayload (records : Nat) (cols : Cols) : Except Error Bytes := do
  let _ ← orBail "too many column streams"
    ((checkedAdd nmisc cols.stat.length).bind (checkedAdd · cols.rune.length))
  let _ ← orBail "column data too large"
    (cols.columns.foldlM (fun acc col => checkedAdd acc col.length) 0)
  pure (payloadBytes records cols)

/-! ## The columns as streams -/

/-- A cell is appended to its column. -/
theorem pushAt_getD (columns : List Bytes) (idx i : Nat) (bytes : Bytes) :
    (pushAt columns idx bytes).getD i [] = columns.getD i [] ++ if i = idx then bytes else [] := by
  have grown : (columns ++ List.replicate (idx + 1 - columns.length) []).getD i [] =
      columns.getD i [] := by
    by_cases inside : i < columns.length
    · simp only [List.getD_eq_getElem?_getD, List.getElem?_append_left inside]
    · simp only [List.getD_eq_getElem?_getD, List.getElem?_append_right (Nat.le_of_not_lt inside),
        List.getElem?_eq_none (Nat.le_of_not_lt inside), List.getElem?_replicate, Option.getD_none]
      split <;> rfl
  rw [← grown]
  unfold pushAt
  simp only [List.getD_eq_getElem?_getD, List.getElem?_modify]
  by_cases same : i = idx
  · subst same
    have there : i < (columns ++ List.replicate (i + 1 - columns.length) []).length := by
      rw [List.length_append, List.length_replicate]
      omega
    simp [List.getElem?_eq_getElem there]
  · simp [same, Ne.symm same]

/-- What a fixed column receives. -/
def fixedPart (col : Col) (bytes : Bytes) : ColStreams := .single (.fixed col) bytes

/-- A varint in a fixed column. -/
def varintPart (col : Col) (v : UInt64) : ColStreams := fixedPart col (writeVarint v)

/-- A zigzag varint in a fixed column. -/
def zigzagPart (col : Col) (v : Int64) : ColStreams := varintPart col (zigzagI64 v)

namespace Cols

/-- The columns as streams; a dynamic column that does not exist is empty. -/
def streams (cols : Cols) : ColStreams
  | .fixed col => cols.fixed col
  | .stat idx => cols.stat.getD idx []
  | .rune idx => cols.rune.getD idx []

/-- New columns are empty. -/
theorem new_streams : new.streams = .empty := by
  funext column
  cases column <;> rfl

variable (cols : Cols)

/-- Bytes are appended to their column. -/
theorem wbytes_streams (col : Col) (bytes : Bytes) :
    (cols.wbytes col bytes).streams = cols.streams ++ fixedPart col bytes := by
  funext column
  cases column with
  | fixed other =>
      by_cases same : other = col
      · subst same
        simp [streams, wbytes, fixedPart]
      · simp [streams, wbytes, fixedPart, same]
  | stat idx => simp [streams, wbytes, fixedPart]
  | rune idx => simp [streams, wbytes, fixedPart]

/-- A varint is appended to its column. -/
theorem wv_streams (col : Col) (v : UInt64) :
    (cols.wv col v).streams = cols.streams ++ varintPart col v :=
  cols.wbytes_streams col (writeVarint v)

/-- A zigzag is appended to its column. -/
theorem wz_streams (col : Col) (v : Int64) :
    (cols.wz col v).streams = cols.streams ++ zigzagPart col v :=
  cols.wv_streams col (zigzagI64 v)

/-- A rune is appended to its column. -/
theorem writeRune_streams (idx : Nat) (v : UInt64) :
    (cols.writeRune idx v).streams = cols.streams ++ .single (.rune idx) (writeVarint v) := by
  funext column
  cases column with
  | fixed col => simp [streams, writeRune]
  | stat other => simp [streams, writeRune]
  | rune other => simp only [streams, writeRune, pushAt_getD, Streams.append_apply,
      Streams.single_apply, Column.rune.injEq]

/-- A stat is appended to its column. -/
theorem statZ_streams (idx : Nat) (v : Int64) :
    (cols.statZ idx v).streams =
      cols.streams ++ .single (.stat idx) (writeVarint (zigzagI64 v)) := by
  funext column
  cases column with
  | fixed col => simp [streams, statZ]
  | stat other => simp only [streams, statZ, pushAt_getD, Streams.append_apply,
      Streams.single_apply, Column.stat.injEq]
  | rune other => simp [streams, statZ]

/-- A loop whose rounds append parts appends their concatenation. -/
theorem foldl_streams {α : Type} {step : Cols → α → Cols} {part : α → ColStreams}
    (round : ∀ cols item, (step cols item).streams = cols.streams ++ part item) (items : List α) :
    (items.foldl step cols).streams = cols.streams ++ .concat (items.map part) := by
  induction items generalizing cols with
  | nil => simp
  | cons item items ih =>
      rw [List.foldl_cons, ih, round, List.map_cons, Streams.concat_cons, Streams.append_assoc]

end Cols

/-- The part of a run of `u32` fields. -/
def fieldsPart (fields : List (Col × UInt32)) : ColStreams :=
  .concat (fields.map fun field => varintPart field.1 field.2.toUInt64)

/-- Fields are appended to their columns. -/
theorem wvAll_streams (cols : Cols) (fields : List (Col × UInt32)) :
    (cols.wvAll fields).streams = cols.streams ++ fieldsPart fields :=
  cols.foldl_streams (fun cols field => cols.wv_streams field.1 field.2.toUInt64) fields

/-- The runes from slot `idx` on. -/
def runesPart (runes : List UInt32) (idx : Nat) : ColStreams :=
  .concat ((runes.zipIdx idx).map fun rune => .single (.rune rune.2) (writeVarint rune.1.toUInt64))

/-- The stats from slot `idx` on. -/
def statsPart (stats : List Int64) (idx : Nat) : ColStreams :=
  .concat ((stats.zipIdx idx).map fun stat =>
    .single (.stat stat.2) (writeVarint (zigzagI64 stat.1)))

def participantPart (participant : Participant) : ColStreams :=
  fieldsPart (Participant.fields participant) ++
    (varintPart .pRunesN (.ofNat participant.runes.length) ++
      (runesPart participant.runes 0 ++
        (varintPart .pStatsN (.ofNat participant.stats.length) ++
          statsPart participant.stats 0)))

/-- A participant is appended as its part. -/
theorem encodeParticipant_streams (cols : Cols) (participant : Participant) :
    (encodeParticipant cols participant).streams =
      cols.streams ++ participantPart participant := by
  unfold encodeParticipant participantPart
  simp only
  rw [Cols.foldl_streams _ fun cols stat => cols.statZ_streams stat.2 stat.1, Cols.wv_streams,
    Cols.foldl_streams _ fun cols rune => cols.writeRune_streams rune.2 rune.1.toUInt64,
    Cols.wv_streams, wvAll_streams]
  simp only [Streams.append_assoc, runesPart, statsPart]

/-- The values of a series from slot `slot` on. -/
def valuesPart (vCol : Col) (values prev : List UInt32) (slot : Nat) : ColStreams :=
  .concat ((values.zipIdx slot).map fun value =>
    zigzagPart vCol (deltaU32 value.1 (prev.getD value.2 0)))

/-- The series of a frame against those of the frame before. -/
def seriesPart : List (Col × Col × List UInt32) → List (List UInt32) → ColStreams
  | [], _ => .empty
  | (nCol, vCol, values) :: series, prevSeries =>
      varintPart nCol (.ofNat values.length) ++
        (valuesPart vCol values (prevSeries.headD []) 0 ++ seriesPart series prevSeries.tail)

/-- The series of a frame are appended as their part. -/
theorem encodeSeriesAll_streams (series : List (Col × Col × List UInt32)) :
    ∀ (prevSeries : List (List UInt32)) (cols : Cols),
      (encodeSeriesAll series prevSeries cols).streams =
        cols.streams ++ seriesPart series prevSeries := by
  induction series with
  | nil => exact fun _ cols => (Streams.append_empty cols.streams).symm
  | cons first series ih =>
      obtain ⟨nCol, vCol, values⟩ := first
      intro prevSeries cols
      rw [encodeSeriesAll, ih, encodeSeries, Cols.foldl_streams _ fun cols (value : UInt32 × Nat) =>
        cols.wz_streams vCol (deltaU32 value.1 ((prevSeries.headD []).getD value.2 0)),
        Cols.wv_streams]
      simp only [Streams.append_assoc, seriesPart, valuesPart]

def framesPart : List MinuteFrame → List (List UInt32) → ColStreams
  | [], _ => .empty
  | frame :: frames, prevSeries =>
      varintPart .fMinute frame.minute.toUInt64 ++
        (seriesPart (MinuteFrame.series frame) prevSeries ++
          framesPart frames ((MinuteFrame.series frame).map fun series => series.2.2))

/-- The frames are appended as their part. -/
theorem encodeFrames_streams (frames : List MinuteFrame) :
    ∀ (prevSeries : List (List UInt32)) (cols : Cols),
      (encodeFrames frames prevSeries cols).streams =
        cols.streams ++ framesPart frames prevSeries := by
  induction frames with
  | nil => exact fun _ cols => (Streams.append_empty cols.streams).symm
  | cons frame frames ih =>
      intro prevSeries cols
      rw [encodeFrames, ih, encodeSeriesAll_streams, Cols.wv_streams]
      simp only [Streams.append_assoc, framesPart]

section Events

variable {Event : Type} (tCol : Col) (time : Event → UInt32) (fields : Event → List (Col × UInt32))

def eventsPart : List Event → UInt32 → ColStreams
  | [], _ => .empty
  | event :: events, prevT =>
      zigzagPart tCol (deltaU32 (time event) prevT) ++
        (fieldsPart (fields event) ++ eventsPart events (time event))

/-- Events are appended as their part. -/
theorem encodeEvents_streams (events : List Event) :
    ∀ (prevT : UInt32) (cols : Cols),
      (encodeEvents tCol time fields events prevT cols).streams =
        cols.streams ++ eventsPart tCol time fields events prevT := by
  induction events with
  | nil => exact fun _ cols => (Streams.append_empty cols.streams).symm
  | cons event events ih =>
      intro prevT cols
      rw [encodeEvents, ih, wvAll_streams, Cols.wz_streams]
      simp only [Streams.append_assoc, eventsPart]

end Events

def timelinePart (timeline : TimelineLite) : ColStreams :=
  varintPart .nframes (.ofNat timeline.frames.length) ++
    (framesPart timeline.frames [[], [], [], []] ++
    (varintPart .nkills (.ofNat timeline.kills.length) ++
    (eventsPart .kT KillEvent.tS KillEvent.fields timeline.kills 0 ++
    (varintPart .nobjs (.ofNat timeline.objectives.length) ++
    (eventsPart .oT ObjectiveEvent.tS ObjectiveEvent.fields timeline.objectives 0 ++
    (varintPart .nwards (.ofNat timeline.wards.length) ++
      eventsPart .wT WardEvent.tS WardEvent.fields timeline.wards 0))))))

/-- A timeline is appended as its part. -/
theorem encodeTimeline_streams (timeline : TimelineLite) (cols : Cols) :
    (encodeTimeline timeline cols).streams = cols.streams ++ timelinePart timeline := by
  unfold encodeTimeline timelinePart
  simp only [encodeEvents_streams, encodeFrames_streams, Cols.wv_streams, Streams.append_assoc]

/-- The bans, as the encoder writes them. -/
def bansPart (bans : List UInt32) : ColStreams :=
  varintPart .bansN (.ofNat bans.length) ++
    .concat (bans.map fun ban => varintPart .bans ban.toUInt64)

/-- The participants. -/
def participantsPart (participants : List Participant) : ColStreams :=
  varintPart .nparts (.ofNat participants.length) ++ .concat (participants.map participantPart)

/-- The optional timeline. -/
def optionalPart (timeline : Option TimelineLite) : ColStreams :=
  varintPart .tlPresent (if timeline.isSome then 1 else 0) ++ timeline.elim .empty timelinePart

/-- The scalar fields of a record, in the order of the encoder. -/
def headPart (gidD startD : Int64) (record : MatchRecord) : ColStreams :=
  varintPart .schema record.schemaVersion.toUInt64 ++ (zigzagPart .gidD gidD ++
    (varintPart .platLen (.ofNat (asBytes record.platform).length) ++
    (fixedPart .plat (asBytes record.platform) ++ (varintPart .queue record.queueId.toUInt64 ++
    (zigzagPart .startD startD ++ (varintPart .dur record.durationS.toUInt64 ++
    (varintPart .blue (if record.blueWon then 1 else 0) ++
    (varintPart .gvLen (.ofNat (asBytes record.gameVersion).length) ++
    (fixedPart .gv (asBytes record.gameVersion) ++ (varintPart .pmaj record.patchMajor.toUInt64 ++
      varintPart .pmin record.patchMinor.toUInt64))))))))))

/-- The two differences of a record to the one before, as the encoder needs them. -/
def DeltasFit (state : BlockState) (record : MatchRecord) : Prop :=
  FitsI64 (record.gameId.toNat - state.gameId.toNat) ∧
    FitsI64 (record.gameStartMs.toInt - state.gameStartMs.toInt)

instance (state : BlockState) (record : MatchRecord) : Decidable (DeltasFit state record) :=
  inferInstanceAs (Decidable (_ ∧ _))

/-- The part of a record, in the order of the encoder: bans before participants. -/
def recordPart (state : BlockState) (record : MatchRecord) : ColStreams :=
  headPart (.ofInt (record.gameId.toNat - state.gameId.toNat))
      (.ofInt (record.gameStartMs.toInt - state.gameStartMs.toInt)) record ++
    (bansPart record.bans ++
      (participantsPart record.participants ++ optionalPart record.timeline))

/-- The delta state after a record. -/
def BlockState.after (record : MatchRecord) : BlockState :=
  { gameId := record.gameId, gameStartMs := record.gameStartMs }

/-- Only records whose differences fit are encoded. -/
theorem deltasFit_of_encodeRecord {record : MatchRecord} {cols : Cols} {state : BlockState}
    {result : Cols × BlockState} (success : encodeRecord record cols state = .ok result) :
    DeltasFit state record := by
  unfold encodeRecord at success
  cases gid : deltaU64 record.gameId state.gameId "game_id" with
  | error messages =>
      rw [gid] at success
      cases success
  | ok gidD =>
      cases start : deltaI64 record.gameStartMs state.gameStartMs "game_start_ms" with
      | error messages =>
          rw [gid, start] at success
          cases success
      | ok startD => exact ⟨(deltaU64_eq_ok.mp gid).1, (deltaI64_eq_ok.mp start).1⟩

/-- A record whose differences fit is encoded, and appends its part. -/
theorem encodeRecord_streams {record : MatchRecord} {state : BlockState}
    (fit : DeltasFit state record) (cols : Cols) :
    ∃ next, encodeRecord record cols state = .ok (next, .after record) ∧
      next.streams = cols.streams ++ recordPart state record := by
  unfold encodeRecord
  rw [deltaU64_eq_ok.mpr ⟨fit.1, rfl⟩, deltaI64_eq_ok.mpr ⟨fit.2, rfl⟩]
  refine ⟨_, rfl, ?_⟩
  have bans : ∀ cols : Cols,
      (record.bans.foldl (fun cols ban => cols.wv .bans ban.toUInt64) cols).streams =
        cols.streams ++ .concat (record.bans.map fun ban => varintPart .bans ban.toUInt64) :=
    fun cols => cols.foldl_streams (fun cols ban => cols.wv_streams .bans ban.toUInt64) _
  have participants : ∀ cols : Cols, (record.participants.foldl encodeParticipant cols).streams =
      cols.streams ++ .concat (record.participants.map participantPart) :=
    fun cols => cols.foldl_streams encodeParticipant_streams _
  cases timeline : record.timeline with
  | none =>
      simp only [recordPart, headPart, bansPart, participantsPart, optionalPart, timeline,
        Option.elim_none, Cols.wv_streams, Cols.wz_streams, Cols.wbytes_streams, bans,
        participants, Streams.append_assoc, Streams.append_empty]
  | some present =>
      simp only [recordPart, headPart, bansPart, participantsPart, optionalPart, timeline,
        Option.elim_some, encodeTimeline_streams, Cols.wv_streams, Cols.wz_streams,
        Cols.wbytes_streams, bans, participants, Streams.append_assoc]

end LolCrawler.Columnar
