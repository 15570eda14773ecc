import LolCrawler.Columnar.ReadBack

/-! # The columnar codec is complete

Encoding a list of canonical records fails only when a difference of game ids or
start times does not fit, and what it returns decodes to exactly the records it
was given (`encodeBlock_complete`). A buffer of the encoder is at most
`isize::MAX` bytes long (`InMemory`), so every count it writes fits its varint
(`counted_of_bounded`).
-/

namespace LolCrawler.Columnar

open Foundation

/-! ## Counts -/

/-- Columns of at most `cap` bytes, and dynamic columns below `cap`. -/
structure Bounded (cap : Nat) (part : ColStreams) : Prop where
  fixed : ∀ col, (part (.fixed col)).length ≤ cap
  stat : ∀ idx, part (.stat idx) ≠ [] → idx < cap
  rune : ∀ idx, part (.rune idx) ≠ [] → idx < cap

variable {cap : Nat}

/-- The first part of columns that are bounded is bounded. -/
theorem Bounded.left {first second : ColStreams} (bounded : Bounded cap (first ++ second)) :
    Bounded cap first where
  fixed := fun col => by
    have whole := bounded.fixed col
    rw [Streams.append_apply, List.length_append] at whole
    omega
  stat := fun idx there => bounded.stat idx fun none => there (List.append_eq_nil_iff.mp none).1
  rune := fun idx there => bounded.rune idx fun none => there (List.append_eq_nil_iff.mp none).1

/-- The second part of columns that are bounded is bounded. -/
theorem Bounded.right {first second : ColStreams} (bounded : Bounded cap (first ++ second)) :
    Bounded cap second where
  fixed := fun col => by
    have whole := bounded.fixed col
    rw [Streams.append_apply, List.length_append] at whole
    omega
  stat := fun idx there => bounded.stat idx fun none => there (List.append_eq_nil_iff.mp none).2
  rune := fun idx there => bounded.rune idx fun none => there (List.append_eq_nil_iff.mp none).2

/-- Every part of a bounded concatenation is bounded. -/
theorem Bounded.of_mem {parts : List ColStreams} (bounded : Bounded cap (.concat parts))
    {part : ColStreams} (member : part ∈ parts) : Bounded cap part := by
  induction parts with
  | nil => cases member
  | cons head parts ih =>
      rcases List.mem_cons.mp member with rfl | member
      · exact bounded.left
      · exact ih bounded.right member

/-- A varint takes a byte at least. -/
theorem varintPart_own (col : Col) (v : UInt64) : 0 < (varintPart col v (.fixed col)).length := by
  simpa only [varintPart, fixedPart, Streams.single_apply, ↓reduceIte] using
    writeVarint_length_pos v

/-- A column every round of a loop writes to is as long as the loop. -/
theorem Bounded.count {α : Type} {part : α → ColStreams} {items : List α}
    (bounded : Bounded cap (.concat (items.map part))) (col : Col)
    (own : ∀ item, 0 < (part item (.fixed col)).length) : items.length ≤ cap := by
  have long : items.length ≤ (Streams.concat (items.map part) (.fixed col)).length := by
    clear bounded
    induction items with
    | nil => exact Nat.zero_le _
    | cons item items ih =>
        rw [List.map_cons, Streams.concat_cons, Streams.append_apply, List.length_append,
          List.length_cons]
        have first := own item
        omega
  exact Nat.le_trans long (bounded.fixed col)

/-- The last element of a list, with its position. -/
theorem last_mem_zipIdx {α : Type} {items : List α} (some : items ≠ []) :
    (items.getLast some, items.length - 1) ∈ items.zipIdx := by
  rw [List.mem_zipIdx_iff_getElem?, ← List.getLast?_eq_getElem?, List.getLast?_eq_some_getLast some]

/-- The last rune of a participant has a column. -/
theorem Bounded.runes {runes : List UInt32} (bounded : Bounded cap (runesPart runes 0)) :
    runes.length ≤ cap := by
  by_cases none : runes = []
  · exact none ▸ Nat.zero_le cap
  · have part := bounded.of_mem (List.mem_map.mpr ⟨_, last_mem_zipIdx none, rfl⟩)
    have below := part.rune (runes.length - 1) <| by
      simpa only [Streams.single_apply, ↓reduceIte] using writeVarint_ne_nil _
    omega

/-- The last stat of a participant has a column. -/
theorem Bounded.stats {stats : List Int64} (bounded : Bounded cap (statsPart stats 0)) :
    stats.length ≤ cap := by
  by_cases none : stats = []
  · exact none ▸ Nat.zero_le cap
  · have part := bounded.of_mem (List.mem_map.mpr ⟨_, last_mem_zipIdx none, rfl⟩)
    have below := part.stat (stats.length - 1) <| by
      simpa only [Streams.single_apply, ↓reduceIte] using writeVarint_ne_nil _
    omega

/-- The runes and stats of a participant can be counted if its columns are bounded. -/
theorem Bounded.participant {participant : Participant}
    (bounded : Bounded cap (participantPart participant)) (small : cap < usizeBound) :
    ParticipantCounted participant :=
  ⟨Nat.lt_of_le_of_lt bounded.right.right.left.runes small,
    Nat.lt_of_le_of_lt bounded.right.right.right.right.stats small⟩

/-- No series is longer than its column. -/
theorem Bounded.series {series : List (Col × Col × List UInt32)} :
    ∀ {prevSeries : List (List UInt32)}, Bounded cap (seriesPart series prevSeries) →
      ∀ each ∈ series, each.2.2.length ≤ cap := by
  induction series with
  | nil => exact fun _ _ member => nomatch member
  | cons first series ih =>
      intro prevSeries bounded each member
      rcases List.mem_cons.mp member with rfl | member
      · have count := bounded.right.left.count each.2.1 fun item => varintPart_own _ _
        rwa [List.length_zipIdx] at count
      · exact ih bounded.right.right each member

/-- No frame and no series is longer than its column. -/
theorem Bounded.frames {frames : List MinuteFrame} :
    ∀ {prevSeries : List (List UInt32)}, Bounded cap (framesPart frames prevSeries) →
      frames.length ≤ (framesPart frames prevSeries (.fixed .fMinute)).length ∧
        ∀ frame ∈ frames, ∀ series ∈ seriesValues frame, series.length ≤ cap := by
  induction frames with
  | nil => exact fun _ => ⟨Nat.zero_le _, fun _ member => nomatch member⟩
  | cons first frames ih =>
      intro prevSeries bounded
      obtain ⟨count, series⟩ := ih bounded.right.right
      constructor
      · have own := varintPart_own .fMinute first.minute.toUInt64
        rw [framesPart, Streams.append_apply, Streams.append_apply, List.length_append,
          List.length_append, List.length_cons]
        omega
      · intro frame member
        rcases List.mem_cons.mp member with rfl | member
        · intro values inside
          obtain ⟨each, there, rfl⟩ := List.mem_map.mp inside
          exact bounded.right.left.series each there
        · exact series frame member

/-- There are no more events than bytes of their times. -/
theorem eventsPart_length {Event : Type} {tCol : Col} {time : Event → UInt32}
    {fields : Event → List (Col × UInt32)} {events : List Event} :
    ∀ prevT, events.length ≤ (eventsPart tCol time fields events prevT (.fixed tCol)).length := by
  induction events with
  | nil => exact fun _ => Nat.zero_le _
  | cons event events ih =>
      intro prevT
      have own : 0 < (zigzagPart tCol (deltaU32 (time event) prevT) (.fixed tCol)).length :=
        varintPart_own tCol _
      have rest := ih (time event)
      rw [eventsPart, Streams.append_apply, Streams.append_apply, List.length_append,
        List.length_append, List.length_cons]
      omega

/-- A timeline can be counted if its columns are bounded. -/
theorem Bounded.timeline {timeline : TimelineLite} (bounded : Bounded cap (timelinePart timeline))
    (small : cap < usizeBound) : TimelineCounted timeline where
  frames := by
    have frames := bounded.right.left
    exact Nat.lt_of_le_of_lt (Nat.le_trans frames.frames.1 (frames.fixed _)) small
  series := fun frame member series inside =>
    Nat.lt_of_le_of_lt (bounded.right.left.frames.2 frame member series inside) small
  kills := by
    have kills := bounded.right.right.right.left
    exact Nat.lt_of_le_of_lt (Nat.le_trans (eventsPart_length 0) (kills.fixed _)) small
  objectives := by
    have objectives := bounded.right.right.right.right.right.left
    exact Nat.lt_of_le_of_lt (Nat.le_trans (eventsPart_length 0) (objectives.fixed _)) small
  wards := by
    have wards := bounded.right.right.right.right.right.right.right
    exact Nat.lt_of_le_of_lt (Nat.le_trans (eventsPart_length 0) (wards.fixed _)) small

/-- What a bounded column received is bounded. -/
theorem Bounded.bytes {col : Col} {bytes : Bytes} (bounded : Bounded cap (fixedPart col bytes)) :
    bytes.length ≤ cap := by
  simpa only [fixedPart, Streams.single_apply, ↓reduceIte] using bounded.fixed col

/-- Every count of a record whose part is bounded fits its varint. -/
theorem counted_of_bounded {state : BlockState} {record : MatchRecord}
    (bounded : Bounded cap (recordPart state record)) (small : cap < usizeBound) :
    Counted record := by
  have head := bounded.left
  have bans := bounded.right.left
  have participants := bounded.right.right.left
  have optional := bounded.right.right.right
  constructor
  · exact Nat.lt_of_le_of_lt head.right.right.right.left.bytes small
  · exact Nat.lt_of_le_of_lt head.right.right.right.right.right.right.right.right.right.left.bytes
      small
  · exact Nat.lt_of_le_of_lt (bans.right.count .bans fun ban => varintPart_own .bans _) small
  · refine Nat.lt_of_le_of_lt (participants.right.count .pPlayer fun participant => ?_) small
    have own := varintPart_own .pPlayer participant.playerId.toUInt64
    rw [participantPart, Streams.append_apply, List.length_append, fieldsPart, Participant.fields,
      List.map_cons, Streams.concat_cons, Streams.append_apply, List.length_append]
    exact Nat.add_pos_left (Nat.add_pos_left own _) _
  · intro participant member
    exact (participants.right.of_mem
      (List.mem_map.mpr ⟨participant, member, rfl⟩)).participant small
  · intro timeline present
    rw [optionalPart, present] at optional
    exact optional.right.timeline small

/-! ## Record lists -/

/-- Every difference to the record before fits, from the given delta state on. -/
def DeltasFitFrom : BlockState → List MatchRecord → Prop
  | _, [] => True
  | state, record :: records => DeltasFit state record ∧ DeltasFitFrom (.after record) records

/-- The parts of a list of records. -/
def recordsPart : BlockState → List MatchRecord → ColStreams
  | _, [] => .empty
  | state, record :: records => recordPart state record ++ recordsPart (.after record) records

/-- The records of a block can be counted if its columns are bounded. -/
theorem Bounded.records {records : List MatchRecord} :
    ∀ {state : BlockState}, Bounded cap (recordsPart state records) → cap < usizeBound →
      ∀ record ∈ records, Counted record := by
  induction records with
  | nil => exact fun _ _ _ member => nomatch member
  | cons first records ih =>
      intro state bounded small record member
      rcases List.mem_cons.mp member with rfl | member
      · exact counted_of_bounded bounded.left small
      · exact ih bounded.right small record member

/-- Every record writes to the schema column. -/
theorem recordsPart_length (records : List MatchRecord) :
    ∀ state, records.length ≤ (recordsPart state records (.fixed .schema)).length := by
  induction records with
  | nil => exact fun _ => Nat.zero_le _
  | cons record records ih =>
      intro state
      have own := varintPart_own .schema record.schemaVersion.toUInt64
      have rest := ih (.after record)
      rw [recordsPart, Streams.append_apply, List.length_append, recordPart, Streams.append_apply,
        List.length_append, headPart, Streams.append_apply, List.length_append, List.length_cons]
      omega

/-- The records of a block are read back, and emitted as they were encoded. -/
theorem decodeRecords_parses (records : List MatchRecord) :
    ∀ idx state, (∀ record ∈ records, Counted record) → DeltasFitFrom state records →
      Parses Holds (decodeRecords records.length idx state) (recordsPart state records)
        (records.map MatchRecord.encodeToVec) := by
  induction records with
  | nil => exact fun _ _ _ _ => Parses.pure []
  | cons record records ih =>
      intro idx state counted fit
      have first : Parses Holds
          (fun readers => context s!"decode record {idx}" (decodeRecord state readers))
          (recordPart state record) (record.encodeToVec, .after record) := by
        intro readers rest held
        obtain ⟨next, read, left⟩ :=
          decodeRecord_parses (counted record List.mem_cons_self) fit.1 readers rest held
        exact ⟨next, context_eq_ok.mpr read, left⟩
      have rest := ih (idx + 1) (.after record)
        (fun other member => counted other (List.mem_cons_of_mem _ member)) fit.2
      exact first.bind (rest.map (record.encodeToVec :: ·))

section Encode

variable {decode : Bytes → Except Error MatchRecord}

/-- Records that are encoded have differences that fit. -/
theorem encodeRecords_fit {records : List MatchRecord} :
    ∀ {idx : Nat} {cols : Cols} {state : BlockState} {result : Cols × BlockState},
      (∀ record ∈ records, decode record.encodeToVec = .ok record) →
      encodeRecords decode (records.map MatchRecord.encodeToVec) idx cols state = .ok result →
        DeltasFitFrom state records := by
  induction records with
  | nil => exact fun _ _ => trivial
  | cons record records ih =>
      intro idx cols state result inverse success
      rw [List.map_cons, encodeRecords, inverse record List.mem_cons_self] at success
      simp only [context_ok, ok_bind] at success
      cases encoded : encodeRecord record cols state with
      | error messages =>
          rw [encoded] at success
          cases success
      | ok next =>
          have fit := deltasFit_of_encodeRecord encoded
          obtain ⟨grown, same, _⟩ := encodeRecord_streams fit cols
          rw [same, Except.ok.injEq] at encoded
          subst encoded
          rw [same] at success
          exact ⟨fit, ih (fun other member =>
            inverse other (List.mem_cons_of_mem _ member)) success⟩

/-- Records whose differences fit are encoded as their parts, one after the other. -/
theorem encodeRecords_streams (records : List MatchRecord) :
    ∀ (idx : Nat) (cols : Cols) (state : BlockState),
      (∀ record ∈ records, decode record.encodeToVec = .ok record) → DeltasFitFrom state records →
      ∃ next last, encodeRecords decode (records.map MatchRecord.encodeToVec) idx cols state =
          .ok (next, last) ∧ next.streams = cols.streams ++ recordsPart state records := by
  induction records with
  | nil => exact fun _ cols state _ _ => ⟨cols, state, rfl, (Streams.append_empty _).symm⟩
  | cons record records ih =>
      intro idx cols state inverse fit
      obtain ⟨grown, encoded, streams⟩ := encodeRecord_streams fit.1 cols
      obtain ⟨next, last, rest, whole⟩ := ih (idx + 1) grown (.after record)
        (fun other member => inverse other (List.mem_cons_of_mem _ member)) fit.2
      refine ⟨next, last, ?_, ?_⟩
      · rw [List.map_cons, encodeRecords, inverse record List.mem_cons_self]
        simp only [context_ok, ok_bind, encoded]
        exact rest
      · rw [whole, streams, recordsPart, Streams.append_assoc]

end Encode

/-! ## The manifest -/

/-- A checked total of sizes that fit is their sum. -/
theorem foldlM_checkedAdd {α : Type} (size : α → Nat) (items : List α) :
    ∀ acc, acc + (items.map size).sum < usizeBound →
      items.foldlM (fun total item => checkedAdd total (size item)) acc =
        some (acc + (items.map size).sum) := by
  induction items with
  | nil => exact fun _ _ => rfl
  | cons item items ih =>
      intro acc small
      rw [List.map_cons, List.sum_cons] at small ⊢
      rw [List.foldlM_cons, checkedAdd, if_pos (by omega)]
      change items.foldlM _ (acc + size item) = _
      rw [ih _ (by omega), Nat.add_assoc]

/-- The lengths section of a payload. -/
def lengthsBytes (columns : List Bytes) : Bytes :=
  columns.flatMap fun col => writeVarint (.ofNat col.length)

/-- The length of a column is written before those of the others. -/
theorem lengthsBytes_cons (column : Bytes) (columns : List Bytes) :
    lengthsBytes (column :: columns) =
      writeVarint (.ofNat column.length) ++ lengthsBytes columns :=
  List.flatMap_cons

/-- Each length takes a byte at least. -/
theorem length_le_lengthsBytes (columns : List Bytes) :
    columns.length ≤ (lengthsBytes columns).length := by
  induction columns with
  | nil => exact Nat.zero_le _
  | cons column columns ih =>
      have first := writeVarint_length_pos (.ofNat column.length)
      rw [lengthsBytes_cons, List.length_append, List.length_cons]
      omega

/-- The lengths are read back. -/
theorem readLengths_written {payload : Bytes} (columns : List Bytes) :
    ∀ (idx : Nat) {pos : Nat} {rest : Bytes}, (∀ column ∈ columns, column.length < usizeBound) →
      payload.drop pos = lengthsBytes columns ++ rest →
      Manifest.readLengths payload columns.length idx pos =
        .ok (columns.map List.length, pos + (lengthsBytes columns).length) := by
  induction columns with
  | nil => exact fun _ _ _ _ _ => rfl
  | cons column columns ih =>
      intro idx pos rest small left
      rw [lengthsBytes_cons, List.append_assoc] at left
      have others := ih (idx + 1)
        (fun other member => small other (List.mem_cons_of_mem _ member)) (drop_add_length left)
      rw [List.length_cons, Manifest.readLengths, readVarintAt_write _ _ left]
      simp only [ok_bind, toUsize_ofNat (small column List.mem_cons_self), context_ok, others]
      rw [lengthsBytes_cons, List.length_append, ← Nat.add_assoc]
      rfl

/-- The columns are read back. -/
theorem slices_written {payload : Bytes} (columns : List Bytes) :
    ∀ {off : Nat} {rest : Bytes}, payload.drop off = columns.flatten ++ rest →
      Manifest.slices payload (columns.map List.length) off = columns := by
  induction columns with
  | nil => exact fun _ => rfl
  | cons column columns ih =>
      intro off rest left
      rw [List.flatten_cons, List.append_assoc] at left
      rw [List.map_cons, Manifest.slices, left, List.take_left, ih (drop_add_length left)]

/-- The lengths of a payload add up. -/
theorem payloadBytes_length (records : Nat) (cols : Cols) :
    (payloadBytes records cols).length = 5 + (writeVarint (.ofNat records)).length +
      (writeVarint (.ofNat cols.stat.length)).length +
      (writeVarint (.ofNat cols.rune.length)).length + (lengthsBytes cols.columns).length +
      cols.columns.flatten.length := by
  simp only [payloadBytes, magic, List.length_append, List.length_cons, List.length_nil]
  change _ + (_ + (_ + (_ + ((lengthsBytes cols.columns).length + _))) + 1) = _
  omega

/-- There is a column for each fixed one, each stat and each rune. -/
theorem columns_length (cols : Cols) :
    cols.columns.length = nmisc + cols.stat.length + cols.rune.length := by
  rw [Cols.columns, List.length_append, List.length_append, List.length_map]
  rfl

/-- No column is longer than all together. -/
theorem length_le_flatten {column : Bytes} {columns : List Bytes} (member : column ∈ columns) :
    column.length ≤ columns.flatten.length :=
  (List.sublist_flatten_of_mem member).length_le

/-- The manifest of a payload within memory is what the encoder put into it. -/
theorem parse_payloadBytes {records : Nat} {cols : Cols} (counted : records < usizeBound)
    (memory : (payloadBytes records cols).length < usizeBound) :
    Manifest.parse (payloadBytes records cols) =
      .ok { records := records, statCols := cols.stat.length, runeCols := cols.rune.length,
            columns := cols.columns } := by
  have total := payloadBytes_length records cols
  have named := length_le_lengthsBytes cols.columns
  have counts := columns_length cols
  have columns : ∀ column ∈ cols.columns, column.length < usizeBound := by
    intro column member
    have inside := length_le_flatten member
    omega
  generalize whole : payloadBytes records cols = payload at memory total ⊢
  have first : payload.drop 5 = writeVarint (.ofNat records) ++
      (writeVarint (.ofNat cols.stat.length) ++ (writeVarint (.ofNat cols.rune.length) ++
        (lengthsBytes cols.columns ++ cols.columns.flatten))) := whole ▸ rfl
  have second := drop_add_length first
  have third := drop_add_length second
  have lengths := drop_add_length third
  have data := drop_add_length lengths
  rw [← List.append_nil cols.columns.flatten] at data
  have sum : (cols.columns.map List.length).sum = cols.columns.flatten.length :=
    List.length_flatten.symm
  have header : decide (5 ≤ payload.length) = true := decide_eq_true (by omega)
  have start : decide (payload.take magic.length = magic) = true := whole ▸ rfl
  have revision : decide (payload.getD magic.length 0 = version) = true := whole ▸ rfl
  have dynamic : checkedAdd cols.stat.length cols.rune.length =
      some (cols.stat.length + cols.rune.length) := if_pos (by omega)
  have all : checkedAdd nmisc (cols.stat.length + cols.rune.length) = some cols.columns.length := by
    rw [checkedAdd, if_pos (by omega), counts, Nat.add_assoc]
  have room : decide (cols.columns.length ≤ payload.length - (5 +
      (writeVarint (.ofNat records)).length + (writeVarint (.ofNat cols.stat.length)).length +
        (writeVarint (.ofNat cols.rune.length)).length)) = true := by
    apply decide_eq_true
    omega
  have sums : (cols.columns.map List.length).foldlM checkedAdd 0 =
      some cols.columns.flatten.length := by
    rw [List.foldlM_map, foldlM_checkedAdd List.length _ _ (by omega), sum, Nat.zero_add]
  have finish : checkedAdd (5 + (writeVarint (.ofNat records)).length +
      (writeVarint (.ofNat cols.stat.length)).length +
        (writeVarint (.ofNat cols.rune.length)).length + (lengthsBytes cols.columns).length)
      cols.columns.flatten.length = some payload.length := by
    rw [total] at memory ⊢
    exact if_pos memory
  unfold Manifest.parse
  simp only [header, start, revision, ensure_true, ok_bind, show magic.length + 1 = 5 from rfl,
    readVarintAt_write _ _ first, readVarintAt_write _ _ second, readVarintAt_write _ _ third,
    toUsize_ofNat counted, toUsize_ofNat (show cols.stat.length < usizeBound by omega),
    toUsize_ofNat (show cols.rune.length < usizeBound by omega), dynamic, all, orBail, room,
    readLengths_written cols.columns 0 columns lengths, sums, finish, Nat.le_refl, decide_true,
    slices_written cols.columns data]
  rfl

/-! ## Blocks -/

/-- Every fixed column is listed. -/
theorem Col.mem_all (col : Col) : col ∈ Col.all := by
  cases col <;> decide

/-- A fixed column is at its place. -/
theorem columns_getD (cols : Cols) (col : Col) :
    cols.columns.getD (Col.all.idxOf col) [] = cols.fixed col := by
  have inside : Col.all.idxOf col < Col.all.length := List.idxOf_lt_length_of_mem (Col.mem_all col)
  have left : Col.all.idxOf col < (Col.all.map cols.fixed).length := by rwa [List.length_map]
  rw [Cols.columns, List.append_assoc, List.getD_eq_getElem?_getD, List.getElem?_append_left left,
    List.getElem?_map, List.getElem?_eq_getElem inside, List.getElem_idxOf]
  rfl

/-- New cursors have all of their columns left. -/
theorem dynamicLeft_new {columns : List Bytes}
    (bounded : ∀ column ∈ columns, column.length < usizeBound) :
    DynamicLeft (columns.map .new) fun idx => columns.getD idx [] := by
  intro idx
  simp only [List.getD_eq_getElem?_getD, List.getElem?_map]
  cases there : columns[idx]? with
  | none => exact ColReader.left_new (by decide)
  | some column => exact ColReader.left_new (bounded column (List.mem_of_getElem? there))

/-- The cursors start with all columns left to read. -/
theorem new_holds {cols : Cols} (bounded : ∀ column ∈ cols.columns, column.length < usizeBound) :
    ∃ readers, ColReaders.new cols.columns cols.stat.length cols.rune.length = .ok readers ∧
      Holds readers cols.streams := by
  unfold ColReaders.new
  rw [decide_eq_true (columns_length cols), ensure_true]
  refine ⟨_, rfl, ?_, ?_, ?_⟩
  · intro col
    change (ColReader.new (cols.columns.getD (Col.all.idxOf col) [])).Left (cols.fixed col)
    rw [columns_getD]
    apply ColReader.left_new
    apply bounded
    rw [Cols.columns, List.append_assoc]
    exact List.mem_append_left _ (List.mem_map.mpr ⟨col, Col.mem_all col, rfl⟩)
  · have stats : (cols.columns.drop nmisc).take cols.stat.length = cols.stat := by
      rw [Cols.columns, List.append_assoc]
      exact List.take_left
    change DynamicLeft (((cols.columns.drop nmisc).take cols.stat.length).map .new) _
    rw [stats]
    apply dynamicLeft_new
    intro column member
    exact bounded column (List.mem_append_left _ (List.mem_append_right _ member))
  · have runes : cols.columns.drop (nmisc + cols.stat.length) = cols.rune := by
      rw [Cols.columns]
      exact List.drop_left' (by rw [List.length_append, List.length_map]; rfl)
    change DynamicLeft ((cols.columns.drop (nmisc + cols.stat.length)).map .new) _
    rw [runes]
    apply dynamicLeft_new
    intro column member
    exact bounded column (List.mem_append_right _ member)

/-- A cursor with nothing left is done. -/
theorem ColReader.Left.done {reader : ColReader} (left : reader.Left []) : reader.done = true := by
  have end_ := List.drop_eq_nil_iff.mp left.rest
  exact decide_eq_true (Nat.le_antisymm left.inside end_)

/-- Dynamic columns with nothing left pass the check. -/
theorem ensureDynamicDone_ok (kind : String) (readers : List ColReader) :
    ∀ idx, DynamicLeft readers (fun _ => []) →
      ColReaders.ensureDynamicDone kind readers idx = .ok () := by
  induction readers with
  | nil => exact fun _ _ => rfl
  | cons reader readers ih =>
      intro idx left
      have first : reader.done = true := (left 0).done
      rw [ColReaders.ensureDynamicDone, first, ensure_true, ok_bind]
      exact ih (idx + 1) fun other => left (other + 1)

/-- Fixed columns with nothing left pass the check. -/
theorem ensureFixedDone_ok {readers : ColReaders} (held : Holds readers .empty)
    (cols : List Col) : readers.ensureFixedDone cols = .ok () := by
  induction cols with
  | nil => rfl
  | cons col cols ih =>
      rw [ColReaders.ensureFixedDone, (held.fixed col).done, ensure_true, ok_bind, ih]

/-- Columns with nothing left pass the final check. -/
theorem ensureDone_ok {readers : ColReaders} (held : Holds readers .empty) :
    readers.ensureDone = .ok () := by
  rw [ColReaders.ensureDone, ensureFixedDone_ok held, ok_bind,
    ensureDynamicDone_ok "stat" _ 0 held.stat, ok_bind, ensureDynamicDone_ok "rune" _ 0 held.rune]

/-- The columns of a payload bound the parts written to them. -/
theorem bounded_of_payload (records : Nat) (cols : Cols) :
    Bounded (payloadBytes records cols).length cols.streams := by
  have total := payloadBytes_length records cols
  have named := length_le_lengthsBytes cols.columns
  have counts := columns_length cols
  constructor
  · intro col
    have member : cols.fixed col ∈ cols.columns := by
      rw [Cols.columns, List.append_assoc]
      exact List.mem_append_left _ (List.mem_map.mpr ⟨col, Col.mem_all col, rfl⟩)
    have inside := length_le_flatten member
    change (cols.fixed col).length ≤ _
    omega
  · intro idx there
    have inside : idx < cols.stat.length := by
      refine Nat.lt_of_not_le fun outside => there ?_
      change cols.stat.getD idx [] = []
      rw [List.getD_eq_getElem?_getD, List.getElem?_eq_none outside, Option.getD_none]
    omega
  · intro idx there
    have inside : idx < cols.rune.length := by
      refine Nat.lt_of_not_le fun outside => there ?_
      change cols.rune.getD idx [] = []
      rw [List.getD_eq_getElem?_getD, List.getElem?_eq_none outside, Option.getD_none]
    omega

/-- A payload whose columns hold the parts of the records decodes to the records. -/
theorem decodeBlock_payload {records : List MatchRecord} {cols : Cols}
    (streams : cols.streams = recordsPart {} records) (fit : DeltasFitFrom {} records)
    (memory : (payloadBytes records.length cols).length < usizeBound) :
    decodeBlock (payloadBytes records.length cols) =
      .ok (records.map MatchRecord.encodeToVec) := by
  have bounded := bounded_of_payload records.length cols
  have total := payloadBytes_length records.length cols
  have columns : ∀ column ∈ cols.columns, column.length < usizeBound := by
    intro column member
    have inside := length_le_flatten member
    omega
  have count : records.length < usizeBound := by
    have written := recordsPart_length records {}
    have schema := bounded.fixed .schema
    rw [streams] at schema
    omega
  rw [streams] at bounded
  obtain ⟨readers, opened, held⟩ := new_holds columns
  rw [streams, ← Streams.append_empty (recordsPart {} records)] at held
  obtain ⟨last, read, left⟩ :=
    decodeRecords_parses records 0 {} (bounded.records memory) fit readers .empty held
  unfold decodeBlock
  simp only [parse_payloadBytes count memory, ok_bind, opened, read, ensureDone_ok left]
  rfl

/-- The same records pass the comparison. -/
theorem compareRecords_self (raws : List Bytes) :
    ∀ idx, compareRecords (raws.zip raws) idx = .ok () := by
  induction raws with
  | nil => exact fun _ => rfl
  | cons raw raws ih =>
      intro idx
      rw [List.zip_cons_cons, compareRecords, if_neg (not_not.mpr rfl), ih]

/-- The largest buffer there can be. -/
def isizeMax : Nat := 2 ^ 63 - 1

/-- The buffer `encode_payload` reserves, on top of what it has written, is one
the allocator can provide. -/
def InMemory (decode : Bytes → Except Error MatchRecord) (raws : List Bytes) : Prop :=
  ∀ cols state, encodeRecords decode raws 0 .new {} = .ok (cols, state) →
    (payloadBytes raws.length cols).length + cols.columns.length ≤ isizeMax

/-- A payload that fits the memory is written. -/
theorem encodePayload_ok {records : Nat} {cols : Cols}
    (memory : (payloadBytes records cols).length < usizeBound) :
    encodePayload records cols = .ok (payloadBytes records cols) := by
  have total := payloadBytes_length records cols
  have named := length_le_lengthsBytes cols.columns
  have counts := columns_length cols
  have sum : (cols.columns.map List.length).sum = cols.columns.flatten.length :=
    List.length_flatten.symm
  have fixed : checkedAdd nmisc cols.stat.length = some (nmisc + cols.stat.length) :=
    if_pos (by omega)
  have all : checkedAdd (nmisc + cols.stat.length) cols.rune.length =
      some (nmisc + cols.stat.length + cols.rune.length) := if_pos (by omega)
  unfold encodePayload
  simp only [fixed, all, Option.bind_some, orBail, ok_bind,
    foldlM_checkedAdd List.length cols.columns 0 (by omega)]
  rfl

/-- Records whose payload is within memory are encoded, and decode to themselves. -/
theorem encodeBlock_payload {decode : Bytes → Except Error MatchRecord}
    {records : List MatchRecord} {cols : Cols} {state : BlockState}
    (encoded : encodeRecords decode (records.map MatchRecord.encodeToVec) 0 .new {} =
      .ok (cols, state))
    (streams : cols.streams = recordsPart {} records) (fit : DeltasFitFrom {} records)
    (small : (payloadBytes records.length cols).length < usizeBound) :
    encodeBlock decode (records.map MatchRecord.encodeToVec) =
        .ok (payloadBytes records.length cols) ∧
      decodeBlock (payloadBytes records.length cols) =
        .ok (records.map MatchRecord.encodeToVec) := by
  have decoded := decodeBlock_payload streams fit small
  refine ⟨?_, decoded⟩
  unfold encodeBlock
  simp only [encoded, ok_bind, List.length_map, encodePayload_ok small, decoded, context_ok,
    decide_true, ensure_true, compareRecords_self]
  rfl

/-- **The codec is complete.** Canonical records are encoded if and only if every
difference of consecutive game ids and start times, from zero on, fits in an
`i64`; then the payload decodes to exactly the records. -/
theorem encodeBlock_complete (decode : Bytes → Except Error MatchRecord)
    (records : List MatchRecord)
    (inverse : ∀ record ∈ records, decode record.encodeToVec = .ok record)
    (memory : InMemory decode (records.map MatchRecord.encodeToVec)) :
    ((∃ payload, encodeBlock decode (records.map MatchRecord.encodeToVec) = .ok payload) ↔
      DeltasFitFrom {} records) ∧
    ∀ payload, encodeBlock decode (records.map MatchRecord.encodeToVec) = .ok payload →
      decodeBlock payload = .ok (records.map MatchRecord.encodeToVec) := by
  have fits : ∀ payload, encodeBlock decode (records.map MatchRecord.encodeToVec) = .ok payload →
      DeltasFitFrom {} records := by
    intro payload success
    cases encoded : encodeRecords decode (records.map MatchRecord.encodeToVec) 0 .new {} with
    | error messages =>
        rw [encodeBlock, encoded] at success
        cases success
    | ok result => exact encodeRecords_fit inverse encoded
  have encodes : DeltasFitFrom {} records → ∃ payload,
      encodeBlock decode (records.map MatchRecord.encodeToVec) = .ok payload ∧
        decodeBlock payload = .ok (records.map MatchRecord.encodeToVec) := by
    intro fit
    obtain ⟨cols, state, encoded, streams⟩ := encodeRecords_streams records 0 .new {} inverse fit
    rw [Cols.new_streams, Streams.empty_append] at streams
    have room := memory cols state encoded
    rw [List.length_map] at room
    have small : (payloadBytes records.length cols).length < usizeBound :=
      Nat.lt_of_le_of_lt (Nat.le_trans (Nat.le_add_right ..) room) (by decide)
    exact ⟨_, encodeBlock_payload encoded streams fit small⟩
  refine ⟨⟨fun ⟨payload, success⟩ => fits payload success, fun fit => ?_⟩,
    fun payload success => ?_⟩
  · obtain ⟨payload, success, _⟩ := encodes fit
    exact ⟨payload, success⟩
  · obtain ⟨other, same, decoded⟩ := encodes (fits payload success)
    rw [success, Except.ok.injEq] at same
    exact same ▸ decoded

/-- A record with two participants, a timeline, bans and a negative start time. -/
def sampleRecord : MatchRecord where
  schemaVersion := 1
  gameId := 90
  platform := "EUW1"
  queueId := 420
  gameStartMs := -900
  durationS := 1800
  blueWon := true
  gameVersion := ""
  patchMajor := 14
  patchMinor := 0
  participants := [⟨7, 266, 1, 4, 12, [8005, 9111], [-5, 0, 17]⟩, ⟨8, 0, 0, 0, 0, [], [9]⟩]
  timeline := some ⟨[⟨0, [500], [], [3, 2], [0]⟩, ⟨2, [450, 600], [12], [], [5, 1, 9]⟩],
    [⟨10, 1, 0, 3, 100, 200⟩, ⟨8, 0, 1, 0, 50, 75⟩], [⟨20, 7, 255, 200, 2⟩], [⟨3, 1, 0⟩]⟩
  bans := [1, 0]

/-- A decoder of the sample's bytes. -/
def sampleDecode (raw : Bytes) : Except Error MatchRecord :=
  if raw = sampleRecord.encodeToVec then .ok sampleRecord else bail "not the sample"

/-- The sample, twice, is encoded and decodes to itself. -/
theorem encodeBlock_complete_sample :
    DeltasFitFrom {} [sampleRecord, sampleRecord] ∧
      ∃ payload, encodeBlock sampleDecode [sampleRecord.encodeToVec, sampleRecord.encodeToVec] =
          .ok payload ∧
        decodeBlock payload = .ok [sampleRecord.encodeToVec, sampleRecord.encodeToVec] := by
  have fit : DeltasFitFrom {} [sampleRecord, sampleRecord] := ⟨by decide, by decide, trivial⟩
  have inverse : ∀ record ∈ [sampleRecord, sampleRecord],
      sampleDecode record.encodeToVec = .ok record := by
    intro record member
    have same : record = sampleRecord := by simpa using member
    exact same ▸ if_pos rfl
  have memory : InMemory sampleDecode
      ([sampleRecord, sampleRecord].map MatchRecord.encodeToVec) := by
    intro cols state encoded
    have size : (encodeRecords sampleDecode
        ([sampleRecord, sampleRecord].map MatchRecord.encodeToVec) 0 .new {}).toOption.map
          (fun result => decide ((payloadBytes 2 result.1).length + result.1.columns.length ≤
            isizeMax)) = some true := by decide +kernel
    rw [encoded] at size
    exact of_decide_eq_true (Option.some.inj size)
  obtain ⟨encodes, decodes⟩ :=
    encodeBlock_complete sampleDecode [sampleRecord, sampleRecord] inverse memory
  obtain ⟨payload, success⟩ := encodes.mpr fit
  exact ⟨fit, payload, success, decodes payload success⟩

end LolCrawler.Columnar
