import LolCrawler.Columnar.Decode

/-! # The decoder reads back what the encoder wrote

`Holds readers streams` says what is left to read in every column. Each reading
step takes the part of the matching encoding step off the streams
(`Foundation.Parses`), up to whole records (`decodeRecord_parses`). The encoder
writes bans before participants and the decoder reads them last; the two parts
lie in different columns, so their order does not matter
(`recordPart_eq_readOrder`).
-/

namespace LolCrawler.Columnar

open Foundation ColReaders

/-! ## Cursors -/

/-- What is left to read in a column. -/
structure ColReader.Left (reader : ColReader) (left : Bytes) : Prop where
  inside : reader.pos ≤ reader.bytes.length
  bounded : reader.bytes.length < usizeBound
  rest : reader.bytes.drop reader.pos = left

/-- A new cursor has all bytes left. -/
theorem ColReader.left_new {bytes : Bytes} (bounded : bytes.length < usizeBound) :
    (ColReader.new bytes).Left bytes :=
  ⟨Nat.zero_le _, bounded, rfl⟩

/-- The cursor after `count` more bytes. -/
theorem ColReader.Left.advance {reader : ColReader} {first rest : Bytes}
    (left : reader.Left (first ++ rest)) :
    ({ reader with pos := reader.pos + first.length } : ColReader).Left rest := by
  obtain ⟨inside, bounded, here⟩ := left
  refine ⟨?_, bounded, drop_add_length here⟩
  have length := congrArg List.length here
  rw [List.length_drop, List.length_append] at length
  change reader.pos + first.length ≤ reader.bytes.length
  omega

/-- A cursor reads back the varint that it is at. -/
theorem ColReader.Left.varint {reader : ColReader} {value : UInt64} {rest : Bytes}
    (left : reader.Left (writeVarint value ++ rest)) (name : String) :
    ∃ next, reader.varint name = .ok (value, next) ∧ next.Left rest := by
  refine ⟨_, ?_, left.advance⟩
  unfold ColReader.varint
  rw [readVarintAt_write value name left.rest]
  rfl

/-- A cursor takes the bytes that it is at. -/
theorem ColReader.Left.take {reader : ColReader} {bytes rest : Bytes}
    (left : reader.Left (bytes ++ rest)) (name : String) :
    ∃ next, reader.take bytes.length name = .ok (bytes, next) ∧ next.Left rest := by
  have within := left.advance.inside
  change reader.pos + bytes.length ≤ reader.bytes.length at within
  refine ⟨_, ?_, left.advance⟩
  unfold ColReader.take
  rw [checkedAdd, if_pos (Nat.lt_of_le_of_lt within left.bounded)]
  simp only [orBail, ok_bind, ensure, within, decide_true, ↓reduceIte, left.rest, List.take_left]
  rfl

/-- What is left to read in the dynamic columns; one that does not exist is empty. -/
def DynamicLeft (readers : List ColReader) (left : Nat → Bytes) : Prop :=
  ∀ idx, (readers.getD idx (.new [])).Left (left idx)

/-- Reading a varint from one dynamic column. -/
theorem DynamicLeft.varint {readers : List ColReader} {rest : Nat → Bytes} {idx : Nat}
    {value : UInt64}
    (left : DynamicLeft readers fun i => (if i = idx then writeVarint value else []) ++ rest i)
    (name : String) :
    ∃ reader next, readers[idx]? = some reader ∧ reader.varint name = .ok (value, next) ∧
      DynamicLeft (readers.set idx next) rest := by
  have own := left idx
  simp only [↓reduceIte] at own
  cases there : readers[idx]? with
  | none =>
      rw [List.getD_eq_getElem?_getD, there, Option.getD_none] at own
      have empty := own.rest
      rw [ColReader.new, List.drop_nil] at empty
      exact absurd (List.append_eq_nil_iff.mp empty.symm).1 (writeVarint_ne_nil value)
  | some reader =>
      rw [List.getD_eq_getElem?_getD, there, Option.getD_some] at own
      obtain ⟨next, read, after⟩ := own.varint name
      refine ⟨reader, next, rfl, read, fun i => ?_⟩
      rw [List.getD_eq_getElem?_getD, List.getElem?_set]
      by_cases same : idx = i
      · subst same
        have inside : idx < readers.length := (List.getElem?_eq_some_iff.mp there).1
        simpa only [↓reduceIte, inside, Option.getD_some] using after
      · have other := left i
        simp only [Ne.symm same, ↓reduceIte, List.nil_append] at other
        simpa only [same, ↓reduceIte, List.getD_eq_getElem?_getD] using other

/-- What is left to read in every column. -/
structure Holds (readers : ColReaders) (streams : ColStreams) : Prop where
  fixed : ∀ col, (readers.fixed col).Left (streams (.fixed col))
  stat : DynamicLeft readers.stat fun idx => streams (.stat idx)
  rune : DynamicLeft readers.rune fun idx => streams (.rune idx)

/-- Advancing the cursor of one fixed column. -/
theorem Holds.setFixed {readers : ColReaders} {col : Col} {bytes : Bytes} {rest : ColStreams}
    {reader : ColReader} (held : Holds readers (fixedPart col bytes ++ rest))
    (left : reader.Left (rest (.fixed col))) :
    Holds { readers with fixed := Function.update readers.fixed col reader } rest where
  fixed := by
    intro other
    by_cases same : other = col
    · subst same
      simpa only [Function.update_self] using left
    · have before := held.fixed other
      simp only [fixedPart, Streams.append_apply, Streams.single_apply, Column.fixed.injEq, same,
        ↓reduceIte, List.nil_append] at before
      simpa only [Function.update_of_ne same] using before
  stat := by simpa [fixedPart] using held.stat
  rune := by simpa [fixedPart] using held.rune

/-- What is left to read in the column of a part. -/
theorem Holds.own {readers : ColReaders} {col : Col} {bytes : Bytes} {rest : ColStreams}
    (held : Holds readers (fixedPart col bytes ++ rest)) :
    (readers.fixed col).Left (bytes ++ rest (.fixed col)) := by
  simpa only [fixedPart, Streams.append_apply, Streams.single_apply, ↓reduceIte] using
    held.fixed col

/-! ## Scalars -/

/-- A varint cell is read back. -/
theorem rv_parses (col : Col) (value : UInt64) :
    Parses Holds (rv col) (varintPart col value) value := by
  intro readers rest held
  obtain ⟨reader, read, left⟩ := held.own.varint col.name
  refine ⟨_, ?_, held.setFixed left⟩
  simp only [rv, read]
  rfl

/-- A zigzag cell is read back. -/
theorem rz_parses (col : Col) (value : Int64) :
    Parses Holds (rz col) (zigzagPart col value) value := by
  have read := (rv_parses col (zigzagI64 value)).map unzigzagI64
  rwa [unzigzagI64_zigzagI64] at read

/-- A cell of bytes is read back. -/
theorem rbytes_parses (col : Col) (bytes : Bytes) :
    Parses Holds (rbytes col bytes.length) (fixedPart col bytes) bytes := by
  intro readers rest held
  obtain ⟨reader, read, left⟩ := held.own.take col.name
  refine ⟨_, ?_, held.setFixed left⟩
  simp only [rbytes, read]
  rfl

/-- A cell of a stat column is read back. -/
theorem statZ_parses (idx : Nat) (value : Int64) :
    Parses Holds (statZ idx) (.single (.stat idx) (writeVarint (zigzagI64 value))) value := by
  intro readers rest held
  have left := held.stat
  simp only [Streams.append_apply, Streams.single_apply, Column.stat.injEq] at left
  obtain ⟨reader, next, there, read, after⟩ := left.varint "stat"
  refine ⟨{ readers with stat := readers.stat.set idx next }, ?_, ⟨?_, after, ?_⟩⟩
  · simp only [statZ, there, orBail, bind, Except.bind, read, unzigzagI64_zigzagI64]
    rfl
  · simpa using held.fixed
  · simpa using held.rune

/-- A cell of a rune column is read back. -/
theorem runeV_parses (idx : Nat) (value : UInt64) :
    Parses Holds (runeV idx) (.single (.rune idx) (writeVarint value)) value := by
  intro readers rest held
  have left := held.rune
  simp only [Streams.append_apply, Streams.single_apply, Column.rune.injEq] at left
  obtain ⟨reader, next, there, read, after⟩ := left.varint "rune"
  refine ⟨{ readers with rune := readers.rune.set idx next }, ?_, ⟨?_, ?_, after⟩⟩
  · simp only [runeV, there, orBail, bind, Except.bind, read]
    rfl
  · simpa using held.fixed
  · simpa using held.stat

/-- A widened `u32` fits. -/
theorem readU32_toUInt64 (value : UInt32) (name : String) :
    readU32 value.toUInt64 name = .ok value := by
  have below := value.toNat_lt
  unfold readU32
  rw [UInt32.toNat_toUInt64, if_pos below, UInt32.toUInt32_toUInt64]

/-- A count that a vector can have fits. -/
theorem toUsize_ofNat {count : Nat} (bounded : count < usizeBound) (name : String) :
    toUsize (.ofNat count) name = .ok count := by
  unfold toUsize
  rw [UInt64.toNat_ofNat', Nat.mod_eq_of_lt (show count < 2 ^ 64 from bounded), if_pos bounded]

/-- A `u32` cell is read back. -/
theorem rv32_parses (col : Col) (name : String) (value : UInt32) :
    Parses Holds (rv32 col name) (varintPart col value.toUInt64) value :=
  (rv_parses col value.toUInt64).checked (readU32_toUInt64 value name)

/-- The length of a vector is read back. -/
theorem rvLen_parses (col : Col) (name : String) {count : Nat} (bounded : count < usizeBound) :
    Parses Holds (rvLen col name) (varintPart col (.ofNat count)) count :=
  (rv_parses col (.ofNat count)).checked (toUsize_ofNat bounded name)

/-! ## Repeated parts -/

/-- What a run of fields is written out as. -/
def emitFields (specs : List (UInt32 × Col × String)) (values : List UInt32) : Bytes :=
  (specs.zip values).flatMap fun field => putFieldVarint field.1.1 field.2.toUInt64

/-- The fields of a message are read back, and emitted as they were encoded. -/
theorem decodeFields_parses (specs : List (UInt32 × Col × String)) :
    ∀ values : List UInt32, specs.length = values.length →
      Parses Holds (decodeFields specs)
        (fieldsPart ((specs.zip values).map fun field => (field.1.2.1, field.2)))
        (emitFields specs values) := by
  induction specs with
  | nil => exact fun _ _ => Parses.pure []
  | cons spec specs ih =>
      obtain ⟨field, col, name⟩ := spec
      intro values same
      cases values with
      | nil => cases same
      | cons value values =>
          exact (rv32_parses col name value).bind
            ((ih values (Nat.succ.inj same)).map (putFieldVarint field value.toUInt64 ++ ·))

/-- A loop reads the parts of its rounds. -/
theorem decodeLoop_parses {α : Type} {body : Nat → Read Bytes} {part : α → Nat → ColStreams}
    {emit : α → Bytes} (items : List α)
    (round : ∀ item ∈ items, ∀ idx, Parses Holds (body idx) (part item idx) (emit item)) :
    ∀ idx, Parses Holds (decodeLoop body items.length idx)
      (.concat ((items.zipIdx idx).map fun item => part item.1 item.2)) (items.flatMap emit) := by
  induction items with
  | nil => exact fun _ => Parses.pure []
  | cons item items ih =>
      intro idx
      have rest := ih (fun other member => round other (List.mem_cons_of_mem _ member)) (idx + 1)
      exact (round item List.mem_cons_self idx).bind (rest.map (emit item ++ ·))

/-- A loop whose rounds do not depend on their index. -/
theorem decodeLoop_parses_map {α : Type} {body : Nat → Read Bytes} {part : α → ColStreams}
    {emit : α → Bytes} (items : List α)
    (round : ∀ item ∈ items, ∀ idx, Parses Holds (body idx) (part item) (emit item)) :
    Parses Holds (decodeLoop body items.length 0) (.concat (items.map part))
      (items.flatMap emit) := by
  apply (decodeLoop_parses items round 0).of_eq
  calc Streams.concat (items.zipIdx.map fun item => part item.1)
      = .concat ((items.zipIdx.map Prod.fst).map part) := by rw [List.map_map]; rfl
    _ = .concat (items.map part) := by rw [List.zipIdx_map_fst]

/-! ## Emission -/

/-- The varint of the codec is that of the wire format, round by round. -/
theorem writeVarintLoop_eq (rounds : Nat) :
    ∀ value, writeVarintLoop rounds value = Proto.encodeVarintLoop rounds value := by
  induction rounds with
  | zero => exact fun _ => rfl
  | succ rounds ih =>
      intro value
      rw [writeVarintLoop, Proto.encodeVarintLoop]
      have last : value >>> 7 = 0 ↔ value < 0x80 := by
        rw [← UInt64.toNat_inj, shift_toNat, UInt64.lt_iff_toNat_lt]
        change value.toNat / 128 = 0 ↔ value.toNat < 128
        omega
      by_cases small : value < 0x80
      · have below : value.toNat < 128 := UInt64.lt_iff_toNat_lt.mp small
        simp only [last.mpr small, small, ↓reduceIte, low_eq, Nat.mod_eq_of_lt below]
        rfl
      · simp only [mt last.mp small, small, ↓reduceIte, ih, UInt64.toUInt8_or]
        rfl

/-- The varint of the codec is that of the wire format. -/
theorem writeVarint_eq (value : UInt64) : writeVarint value = Proto.encodeVarint value :=
  writeVarintLoop_eq 10 value

/-- The zigzag of the codec is that of the wire format. -/
theorem zigzagI64_eq (value : Int64) : zigzagI64 value = Proto.zigzag value := rfl

/-- A varint field is emitted as it is encoded. -/
theorem putFieldVarint_eq (field : UInt32) (value : UInt64) :
    putFieldVarint field value = Proto.varintField field.toUInt64 value := by
  simp only [putFieldVarint, Proto.varintField, Proto.encodeKey, writeVarint_eq, UInt64.or_zero]

/-- An `int64` field is emitted as it is encoded. -/
theorem putFieldInt64_eq (field : UInt32) (value : Int64) :
    putFieldInt64 field value = Proto.int64Field field.toUInt64 value := by
  have zero : value = 0 ↔ value.toUInt64 = 0 :=
    ⟨fun same => same ▸ rfl, fun same => congrArg Int64.ofUInt64 same⟩
  simp only [putFieldInt64, Proto.int64Field, Proto.varintField, Proto.encodeKey, writeVarint_eq,
    UInt64.or_zero, zero]

/-- A message field is emitted as it is encoded. -/
theorem putFieldMessage_eq (field : UInt32) (bytes : Bytes) :
    putFieldMessage field bytes = Proto.lengthDelimited field.toUInt64 bytes := by
  simp only [putFieldMessage, Proto.lengthDelimited, Proto.encodeKey, writeVarint_eq]

/-- A bytes field is emitted as it is encoded. -/
theorem putFieldBytes_eq (field : UInt32) (bytes : Bytes) :
    putFieldBytes field bytes = Proto.bytesField field.toUInt64 bytes := by
  simp only [putFieldBytes, Proto.bytesField, putFieldMessage_eq]

/-! ## Records -/

/-- A rune is read back, and emitted as it was encoded. -/
theorem decodeRune_parses (rune : UInt32) (idx : Nat) :
    Parses Holds (decodeRune idx) (.single (.rune idx) (writeVarint rune.toUInt64))
      (writeVarint rune.toUInt64) := by
  unfold decodeRune
  apply (runeV_parses idx rune.toUInt64).checked_map
  exact readU32_toUInt64 rune "rune"

/-- A stat is read back, and emitted as it was encoded. -/
theorem decodeStat_parses (stat : Int64) (idx : Nat) :
    Parses Holds (decodeStat idx) (.single (.stat idx) (writeVarint (zigzagI64 stat)))
      (writeVarint (zigzagI64 stat)) :=
  (statZ_parses idx stat).map fun value => writeVarint (zigzagI64 value)

/-- The counts of a participant fit their columns. -/
def ParticipantCounted (participant : Participant) : Prop :=
  participant.runes.length < usizeBound ∧ participant.stats.length < usizeBound

/-- A participant is read back, and emitted as it was encoded. -/
theorem decodeParticipant_parses {participant : Participant}
    (counted : ParticipantCounted participant) (idx : Nat) :
    Parses Holds (decodeParticipant idx) (participantPart participant)
      (Proto.lengthDelimited 11 participant.encodeToVec) := by
  have fields := decodeFields_parses participantFields
    [participant.playerId, participant.championId, participant.position, participant.spell1,
      participant.spell2] rfl
  have runes := decodeLoop_parses participant.runes (fun rune _ => decodeRune_parses rune) 0
  have stats := decodeLoop_parses participant.stats (fun stat _ => decodeStat_parses stat) 0
  have emitted : Proto.lengthDelimited 11 participant.encodeToVec =
      putFieldMessage 11 (emitFields participantFields
          [participant.playerId, participant.championId, participant.position, participant.spell1,
            participant.spell2] ++
        putFieldPackedBody 6 (participant.runes.flatMap fun rune => writeVarint rune.toUInt64) ++
        putFieldPackedBody 7
          (participant.stats.flatMap fun stat => writeVarint (zigzagI64 stat))) := by
    simp only [Participant.encodeToVec, emitFields, participantFields, List.zip_cons_cons,
      List.zip_nil_left, List.flatMap_cons, List.flatMap_nil, List.append_nil, List.append_assoc,
      putFieldMessage_eq, putFieldVarint_eq, putFieldPackedBody, putFieldBytes_eq, writeVarint_eq,
      zigzagI64_eq, Proto.packedUint32, Proto.packedSint64, Proto.uint32Field]
    rfl
  rw [emitted]
  exact fields.bind ((rvLen_parses .pRunesN _ counted.1).bind
    (runes.bind ((rvLen_parses .pStatsN _ counted.2).bind (stats.map _))))

/-- The values of a series are read back from their differences. -/
theorem decodeValues_parses (vCol : Col) (name : String) (prev values : List UInt32) :
    ∀ slot, Parses Holds (decodeValues vCol name prev values.length slot)
      (valuesPart vCol values prev slot) values := by
  induction values with
  | nil => exact fun _ => Parses.pure []
  | cons value values ih =>
      intro slot
      have first := rz_parses vCol (deltaU32 value (prev.getD slot 0))
      have checked := addDeltaU32_delta value (prev.getD slot 0) name
      exact first.bind (.lift_bind checked ((ih (slot + 1)).map (value :: ·)))

/-- What the series of a frame are written out as. -/
def emitSeries (specs : List (UInt32 × Col × Col × String)) (values : List (List UInt32)) : Bytes :=
  (specs.zip values).flatMap fun series =>
    putFieldPackedBody series.1.1 (series.2.flatMap fun value => writeVarint value.toUInt64)

/-- All series of a frame are read back, and emitted as they were encoded. -/
theorem decodeSeriesAll_parses (specs : List (UInt32 × Col × Col × String)) :
    ∀ values prevSeries : List (List UInt32), specs.length = values.length →
      (∀ series ∈ values, series.length < usizeBound) →
      Parses Holds (decodeSeriesAll specs prevSeries)
        (seriesPart ((specs.zip values).map fun series =>
          (series.1.2.1, series.1.2.2.1, series.2)) prevSeries)
        (emitSeries specs values, values) := by
  induction specs with
  | nil =>
      intro values prevSeries same _
      cases values with
      | nil => exact Parses.pure ([], [])
      | cons => cases same
  | cons spec specs ih =>
      obtain ⟨field, nCol, vCol, name⟩ := spec
      intro values prevSeries same counted
      cases values with
      | nil => cases same
      | cons series values =>
          have count := rvLen_parses nCol name (counted series List.mem_cons_self)
          have first := decodeValues_parses vCol name (prevSeries.headD []) series 0
          have rest := ih values prevSeries.tail (Nat.succ.inj same)
            fun other member => counted other (List.mem_cons_of_mem _ member)
          exact count.bind (first.bind (rest.map fun result =>
            (putFieldPackedBody field (series.flatMap fun value => writeVarint value.toUInt64) ++
              result.1, series :: result.2)))

/-- The values of a frame's series. -/
def seriesValues (frame : MinuteFrame) : List (List UInt32) :=
  (MinuteFrame.series frame).map fun series => series.2.2

/-- The frames are read back, and emitted as they were encoded. -/
theorem decodeFrames_parses (frames : List MinuteFrame)
    (counted : ∀ frame ∈ frames, ∀ series ∈ seriesValues frame, series.length < usizeBound) :
    ∀ prevSeries, Parses Holds (decodeFrames frames.length prevSeries)
      (framesPart frames prevSeries)
      (frames.flatMap fun frame => Proto.lengthDelimited 1 frame.encodeToVec) := by
  induction frames with
  | nil => exact fun _ => Parses.pure []
  | cons frame frames ih =>
      intro prevSeries
      have minute := rv32_parses .fMinute "minute" frame.minute
      have series := decodeSeriesAll_parses frameSeries (seriesValues frame) prevSeries rfl
        (counted frame List.mem_cons_self)
      have rest := ih (fun other member => counted other (List.mem_cons_of_mem _ member))
        (seriesValues frame)
      have emitted : Proto.lengthDelimited 1 frame.encodeToVec =
          putFieldMessage 1 (putFieldVarint 1 frame.minute.toUInt64 ++
            emitSeries frameSeries (seriesValues frame)) := by
        simp only [MinuteFrame.encodeToVec, emitSeries, frameSeries, seriesValues,
          MinuteFrame.series, List.map_cons, List.map_nil, List.zip_cons_cons, List.zip_nil_left,
          List.flatMap_cons, List.flatMap_nil, List.append_nil, List.append_assoc,
          putFieldMessage_eq, putFieldVarint_eq, putFieldPackedBody, putFieldBytes_eq,
          writeVarint_eq, Proto.packedUint32, Proto.uint32Field]
        rfl
      rw [List.flatMap_cons, emitted]
      exact minute.bind (series.bind (rest.map _))

section Events

variable {Event : Type} {tCol : Col} {time : Event → UInt32}
  {fields : Event → List (Col × UInt32)} {field : UInt32} {encode : Event → Bytes}

/-- Events of one kind are read back, and emitted as they were encoded. -/
theorem decodeEvents_parses (specs : List (UInt32 × Col × String)) (values : Event → List UInt32)
    (tName : String) (arity : ∀ event, specs.length = (values event).length)
    (columns : ∀ event, fields event =
      (specs.zip (values event)).map fun field => (field.1.2.1, field.2))
    (emitted : ∀ event, Proto.lengthDelimited field.toUInt64 (encode event) =
      putFieldMessage field (putFieldVarint 1 (time event).toUInt64 ++
        emitFields specs (values event))) (events : List Event) :
    ∀ prevT, Parses Holds (decodeEvents field tCol tName specs events.length prevT)
      (eventsPart tCol time fields events prevT)
      (events.flatMap fun event => Proto.lengthDelimited field.toUInt64 (encode event)) := by
  induction events with
  | nil => exact fun _ => Parses.pure []
  | cons event events ih =>
      intro prevT
      have stamp := rz_parses tCol (deltaU32 (time event) prevT)
      have checked := addDeltaU32_delta (time event) prevT tName
      have others := decodeFields_parses specs (values event) (arity event)
      rw [← columns] at others
      rw [List.flatMap_cons, emitted]
      exact stamp.bind (.lift_bind checked (others.bind ((ih (time event)).map _)))

end Events

/-- The kills are read back, and emitted as they were encoded. -/
theorem decodeKills_parses (kills : List KillEvent) :
    Parses Holds (decodeEvents 2 .kT "kill timestamp" killFields kills.length 0)
      (eventsPart .kT KillEvent.tS KillEvent.fields kills 0)
      (kills.flatMap fun kill => Proto.lengthDelimited 2 kill.encodeToVec) := by
  refine decodeEvents_parses killFields (fun kill => [kill.killer, kill.victim, kill.assistMask,
    kill.x, kill.y]) _ (fun _ => rfl) (fun _ => rfl) (fun kill => ?_) kills 0
  simp only [KillEvent.encodeToVec, emitFields, killFields, List.zip_cons_cons, List.zip_nil_left,
    List.flatMap_cons, List.flatMap_nil, List.append_nil, List.append_assoc, putFieldMessage_eq,
    putFieldVarint_eq, Proto.uint32Field]
  rfl

/-- The objectives are read back, and emitted as they were encoded. -/
theorem decodeObjectives_parses (objectives : List ObjectiveEvent) :
    Parses Holds (decodeEvents 3 .oT "objective timestamp" objectiveFields objectives.length 0)
      (eventsPart .oT ObjectiveEvent.tS ObjectiveEvent.fields objectives 0)
      (objectives.flatMap fun objective => Proto.lengthDelimited 3 objective.encodeToVec) := by
  refine decodeEvents_parses objectiveFields (fun objective => [objective.kind, objective.killer,
    objective.losingTeam, objective.lane]) _ (fun _ => rfl) (fun _ => rfl) (fun objective => ?_)
    objectives 0
  simp only [ObjectiveEvent.encodeToVec, emitFields, objectiveFields, List.zip_cons_cons,
    List.zip_nil_left, List.flatMap_cons, List.flatMap_nil, List.append_nil, List.append_assoc,
    putFieldMessage_eq, putFieldVarint_eq, Proto.uint32Field]
  rfl

/-- The wards are read back, and emitted as they were encoded. -/
theorem decodeWards_parses (wards : List WardEvent) :
    Parses Holds (decodeEvents 4 .wT "ward timestamp" wardFields wards.length 0)
      (eventsPart .wT WardEvent.tS WardEvent.fields wards 0)
      (wards.flatMap fun ward => Proto.lengthDelimited 4 ward.encodeToVec) := by
  refine decodeEvents_parses wardFields (fun ward => [ward.kind, ward.participant]) _
    (fun _ => rfl) (fun _ => rfl) (fun ward => ?_) wards 0
  simp only [WardEvent.encodeToVec, emitFields, wardFields, List.zip_cons_cons, List.zip_nil_left,
    List.flatMap_cons, List.flatMap_nil, List.append_nil, List.append_assoc, putFieldMessage_eq,
    putFieldVarint_eq, Proto.uint32Field]
  rfl

/-- The counts of a timeline fit their columns. -/
structure TimelineCounted (timeline : TimelineLite) : Prop where
  frames : timeline.frames.length < usizeBound
  series : ∀ frame ∈ timeline.frames, ∀ series ∈ seriesValues frame, series.length < usizeBound
  kills : timeline.kills.length < usizeBound
  objectives : timeline.objectives.length < usizeBound
  wards : timeline.wards.length < usizeBound

/-- The timeline is read back, and emitted as it was encoded. -/
theorem decodeTimeline_parses {timeline : TimelineLite} (counted : TimelineCounted timeline) :
    Parses Holds decodeTimeline (timelinePart timeline) timeline.encodeToVec :=
  (rvLen_parses .nframes _ counted.frames).bind <|
    (decodeFrames_parses timeline.frames counted.series _).bind <|
    (rvLen_parses .nkills _ counted.kills).bind <| (decodeKills_parses timeline.kills).bind <|
    (rvLen_parses .nobjs _ counted.objectives).bind <|
    (decodeObjectives_parses timeline.objectives).bind <|
    (rvLen_parses .nwards _ counted.wards).bind <| (decodeWards_parses timeline.wards).map _

/-- The counts and lengths of a record fit their columns. -/
structure Counted (record : MatchRecord) : Prop where
  platform : (asBytes record.platform).length < usizeBound
  gameVersion : (asBytes record.gameVersion).length < usizeBound
  bans : record.bans.length < usizeBound
  participants : record.participants.length < usizeBound
  slots : ∀ participant ∈ record.participants, ParticipantCounted participant
  timeline : ∀ timeline, record.timeline = some timeline → TimelineCounted timeline

/-! ## The order of the decoder -/

section Avoid

variable {col : Col}

/-- A varint cell leaves the other columns alone. -/
theorem varintPart_avoids {other : Col} (apart : col ≠ other) (v : UInt64) :
    varintPart other v (.fixed col) = [] := by
  simp only [varintPart, fixedPart, Streams.single_apply, Column.fixed.injEq, apart, ↓reduceIte]

/-- A zigzag cell leaves the other columns alone. -/
theorem zigzagPart_avoids {other : Col} (apart : col ≠ other) (v : Int64) :
    zigzagPart other v (.fixed col) = [] :=
  varintPart_avoids apart _

/-- Fields leave the other columns alone. -/
theorem fieldsPart_avoids {fields : List (Col × UInt32)}
    (apart : ∀ field ∈ fields, col ≠ field.1) : fieldsPart fields (.fixed col) = [] := by
  apply Streams.concat_eq_nil
  intro part member
  obtain ⟨field, inside, rfl⟩ := List.mem_map.mp member
  exact varintPart_avoids (apart field inside) _

/-- Runes and stats leave the fixed columns alone. -/
theorem dynamic_avoids (col : Col) (runes : List UInt32) (stats : List Int64) (idx : Nat) :
    runesPart runes idx (.fixed col) = [] ∧ statsPart stats idx (.fixed col) = [] := by
  constructor <;> apply Streams.concat_eq_nil <;> intro part member <;>
    obtain ⟨item, _, rfl⟩ := List.mem_map.mp member <;> rfl

/-- Series leave the other columns alone. -/
theorem seriesPart_avoids {series : List (Col × Col × List UInt32)}
    (apart : ∀ each ∈ series, col ≠ each.1 ∧ col ≠ each.2.1) :
    ∀ prevSeries, seriesPart series prevSeries (.fixed col) = [] := by
  induction series with
  | nil => exact fun _ => rfl
  | cons each series ih =>
      obtain ⟨nCol, vCol, values⟩ := each
      intro prevSeries
      obtain ⟨count, value⟩ := apart _ List.mem_cons_self
      have first : valuesPart vCol values (prevSeries.headD []) 0 (.fixed col) = [] := by
        apply Streams.concat_eq_nil
        intro part member
        obtain ⟨item, _, rfl⟩ := List.mem_map.mp member
        exact zigzagPart_avoids value _
      have rest := ih (fun other member => apart other (List.mem_cons_of_mem _ member))
        prevSeries.tail
      simp only [seriesPart, Streams.append_apply, varintPart_avoids count, first, rest,
        List.append_nil]

/-- Events leave the other columns alone. -/
theorem eventsPart_avoids {Event : Type} {tCol : Col} (time : Event → UInt32)
    (fields : Event → List (Col × UInt32)) (stamp : col ≠ tCol)
    (apart : ∀ event, ∀ field ∈ fields event, col ≠ field.1) (events : List Event) :
    ∀ prevT, eventsPart tCol time fields events prevT (.fixed col) = [] := by
  induction events with
  | nil => exact fun _ => rfl
  | cons event events ih =>
      intro prevT
      simp only [eventsPart, Streams.append_apply, zigzagPart_avoids stamp,
        fieldsPart_avoids (apart event), ih (time event), List.append_nil]

variable (ban : col = .bansN ∨ col = .bans)

include ban

/-- Frames leave the columns of the header alone. -/
theorem framesPart_avoids (frames : List MinuteFrame) :
    ∀ prevSeries, framesPart frames prevSeries (.fixed col) = [] := by
  induction frames with
  | nil => exact fun _ => rfl
  | cons frame frames ih =>
      intro prevSeries
      have minute : col ≠ .fMinute := by rcases ban with rfl | rfl <;> decide
      have series : ∀ each ∈ MinuteFrame.series frame, col ≠ each.1 ∧ col ≠ each.2.1 := by
        rcases ban with rfl | rfl <;> simp [MinuteFrame.series]
      simp only [framesPart, Streams.append_apply, varintPart_avoids minute,
        seriesPart_avoids series, ih _, List.append_nil]

/-- A timeline leaves the columns of the header alone. -/
theorem timelinePart_avoids (timeline : TimelineLite) :
    timelinePart timeline (.fixed col) = [] := by
  obtain ⟨nframes, nkills, nobjs, nwards, kT, oT, wT⟩ : col ≠ .nframes ∧ col ≠ .nkills ∧
      col ≠ .nobjs ∧ col ≠ .nwards ∧ col ≠ .kT ∧ col ≠ .oT ∧ col ≠ .wT := by
    rcases ban with rfl | rfl <;> decide
  have kill : ∀ event, ∀ field ∈ KillEvent.fields event, col ≠ field.1 := by
    rcases ban with rfl | rfl <;> simp [KillEvent.fields]
  have objective : ∀ event, ∀ field ∈ ObjectiveEvent.fields event, col ≠ field.1 := by
    rcases ban with rfl | rfl <;> simp [ObjectiveEvent.fields]
  have ward : ∀ event, ∀ field ∈ WardEvent.fields event, col ≠ field.1 := by
    rcases ban with rfl | rfl <;> simp [WardEvent.fields]
  simp only [timelinePart, Streams.append_apply, varintPart_avoids nframes,
    varintPart_avoids nkills, varintPart_avoids nobjs, varintPart_avoids nwards,
    framesPart_avoids ban, eventsPart_avoids _ _ kT kill, eventsPart_avoids _ _ oT objective,
    eventsPart_avoids _ _ wT ward, List.append_nil]

/-- A participant leaves the columns of the header alone. -/
theorem participantPart_avoids (participant : Participant) :
    participantPart participant (.fixed col) = [] := by
  obtain ⟨runesN, statsN⟩ : col ≠ .pRunesN ∧ col ≠ .pStatsN := by
    rcases ban with rfl | rfl <;> decide
  have fields : ∀ field ∈ Participant.fields participant, col ≠ field.1 := by
    rcases ban with rfl | rfl <;> simp [Participant.fields]
  obtain ⟨runes, stats⟩ := dynamic_avoids col participant.runes participant.stats 0
  simp only [participantPart, Streams.append_apply, fieldsPart_avoids fields,
    varintPart_avoids runesN, varintPart_avoids statsN, runes, stats, List.append_nil]

/-- The body leaves the columns of the header alone. -/
theorem bodyPart_avoids (record : MatchRecord) :
    (participantsPart record.participants ++ optionalPart record.timeline) (.fixed col) = [] := by
  obtain ⟨nparts, present⟩ : col ≠ .nparts ∧ col ≠ .tlPresent := by
    rcases ban with rfl | rfl <;> decide
  have participants : Streams.concat (record.participants.map participantPart)
    (.fixed col) = [] := by
    apply Streams.concat_eq_nil
    intro part member
    obtain ⟨participant, _, rfl⟩ := List.mem_map.mp member
    exact participantPart_avoids ban participant
  simp only [participantsPart, optionalPart, Streams.append_apply, varintPart_avoids nparts,
    varintPart_avoids present, participants, List.nil_append]
  cases record.timeline with
  | none => rfl
  | some timeline => exact timelinePart_avoids ban timeline

end Avoid

/-- The bans lie in their own two columns. -/
theorem bansPart_avoids (bans : List UInt32) {column : Column} (count : column ≠ .fixed .bansN)
    (value : column ≠ .fixed .bans) : bansPart bans column = [] := by
  have values : Streams.concat (bans.map fun ban => varintPart .bans ban.toUInt64) column = [] := by
    apply Streams.concat_eq_nil
    intro part member
    obtain ⟨ban, _, rfl⟩ := List.mem_map.mp member
    simp only [varintPart, fixedPart, Streams.single_apply, value, ↓reduceIte]
  rw [bansPart, Streams.append_apply, values, List.append_nil]
  simp only [varintPart, fixedPart, Streams.single_apply, count, ↓reduceIte]

/-- The part of a record in the order of the decoder: bans last. -/
theorem recordPart_eq_readOrder (state : BlockState) (record : MatchRecord) :
    recordPart state record =
      headPart (.ofInt (record.gameId.toNat - state.gameId.toNat))
          (.ofInt (record.gameStartMs.toInt - state.gameStartMs.toInt)) record ++
        (participantsPart record.participants ++
          (optionalPart record.timeline ++ bansPart record.bans)) := by
  have apart : ∀ column, bansPart record.bans column = [] ∨
      (participantsPart record.participants ++ optionalPart record.timeline) column = [] := by
    intro column
    by_cases count : column = .fixed .bansN
    · exact .inr (count ▸ bodyPart_avoids (.inl rfl) record)
    · by_cases value : column = .fixed .bans
      · exact .inr (value ▸ bodyPart_avoids (.inr rfl) record)
      · exact .inl (bansPart_avoids record.bans count value)
  rw [recordPart, Streams.append_comm apart, Streams.append_assoc]

/-- A ban is read back, and emitted as it was encoded. -/
theorem decodeBan_parses (ban : UInt32) (idx : Nat) :
    Parses Holds (decodeBan idx) (varintPart .bans ban.toUInt64) (writeVarint ban.toUInt64) := by
  unfold decodeBan
  exact (rv32_parses .bans "ban" ban).map fun value : UInt32 => writeVarint value.toUInt64

/-- A timeline that may be absent is read back, and emitted as it was encoded. -/
theorem decodePresent_parses {timeline : Option TimelineLite}
    (counted : ∀ present, timeline = some present → TimelineCounted present) :
    Parses Holds (decodePresent (if timeline.isSome then 1 else 0))
      (timeline.elim .empty timelinePart)
      (timeline.elim [] fun present => Proto.lengthDelimited 12 present.encodeToVec) := by
  cases timeline with
  | none => exact Parses.pure []
  | some present =>
      have read := (decodeTimeline_parses (counted present rfl)).map (putFieldMessage 12)
      rwa [putFieldMessage_eq] at read

/-- **Records read back.** The decoder takes the part of a record off the columns
and returns its canonical bytes. -/
theorem decodeRecord_parses {state : BlockState} {record : MatchRecord}
    (counted : Counted record) (fit : DeltasFit state record) :
    Parses Holds (decodeRecord state) (recordPart state record)
      (record.encodeToVec, .after record) := by
  have participants := decodeLoop_parses_map record.participants fun participant member =>
    decodeParticipant_parses (counted.slots participant member)
  have bans := decodeLoop_parses_map record.bans fun ban _ => decodeBan_parses ban
  have blue : (if record.blueWon then 1 else 0 : UInt64) ≤ 1 := by cases record.blueWon <;> decide
  have present : (if record.timeline.isSome then 1 else 0 : UInt64) ≤ 1 := by
    cases record.timeline.isSome <;> decide
  have emitted : record.encodeToVec =
      putFieldVarint 1 record.schemaVersion.toUInt64 ++ putFieldVarint 2 record.gameId ++
        putFieldBytes 3 (asBytes record.platform) ++ putFieldVarint 4 record.queueId.toUInt64 ++
        putFieldInt64 5 record.gameStartMs ++ putFieldVarint 6 record.durationS.toUInt64 ++
        putFieldVarint 7 (if record.blueWon then 1 else 0) ++
        putFieldBytes 8 (asBytes record.gameVersion) ++
        putFieldVarint 9 record.patchMajor.toUInt64 ++
        putFieldVarint 10 record.patchMinor.toUInt64 ++
        record.participants.flatMap
          (fun participant => Proto.lengthDelimited 11 participant.encodeToVec) ++
        (record.timeline.elim [] fun timeline => Proto.lengthDelimited 12 timeline.encodeToVec) ++
        putFieldPackedBody 13 (record.bans.flatMap fun ban => writeVarint ban.toUInt64) := by
    simp only [MatchRecord.encodeToVec, putFieldVarint_eq, putFieldInt64_eq, putFieldPackedBody,
      putFieldBytes_eq, writeVarint_eq, Proto.packedUint32, Proto.uint32Field, Proto.boolField]
    rfl
  rw [recordPart_eq_readOrder, headPart, emitted]
  simp only [Streams.append_assoc, participantsPart, optionalPart, bansPart]
  apply (rv32_parses .schema _ _).bind
  apply (rz_parses .gidD _).bind
  apply Parses.lift_bind (addDeltaU64_delta fit.1 _)
  apply (rvLen_parses .platLen _ counted.platform).bind
  apply (rbytes_parses .plat _).bind
  apply (rv32_parses .queue _ _).bind
  apply (rz_parses .startD _).bind
  apply Parses.lift_bind (addDeltaI64_delta fit.2 _)
  apply (rv32_parses .dur _ _).bind
  apply (rv_parses .blue _).bind
  apply Parses.lift_bind (ensure_eq_ok.mpr (decide_eq_true blue))
  apply (rvLen_parses .gvLen _ counted.gameVersion).bind
  apply (rbytes_parses .gv _).bind
  apply (rv32_parses .pmaj _ _).bind
  apply (rv32_parses .pmin _ _).bind
  apply (rvLen_parses .nparts _ counted.participants).bind
  apply participants.bind
  apply (rv_parses .tlPresent _).bind
  apply Parses.lift_bind (ensure_eq_ok.mpr (decide_eq_true present))
  apply (decodePresent_parses counted.timeline).bind
  apply (rvLen_parses .bansN _ counted.bans).bind
  exact bans.map _

end LolCrawler.Columnar
