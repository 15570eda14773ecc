import LolCrawler.Columnar.Takes

/-! # Decoded blocks are canonical

Whatever bytes a block was made of, the records it decodes to are canonical, and
encoding them again succeeds: their deltas are those that were read, and the new
payload is no longer than the old one (`payloadBytes_length_le`), since varints are
written minimally, every column is no longer, and no dynamic column is empty at the
end (`Trimmed`).
-/

namespace LolCrawler.Columnar

open Foundation

/-! ## The dynamic columns of the encoder -/

/-- No empty column at the end. -/
def Trimmed (columns : List Bytes) : Prop :=
  columns = [] ∨ columns.getD (columns.length - 1) [] ≠ []

/-- A cell that is written past the end makes the columns longer. -/
theorem pushAt_length (columns : List Bytes) (idx : Nat) (bytes : Bytes) :
    (pushAt columns idx bytes).length = max columns.length (idx + 1) := by
  rw [pushAt, List.length_modify, List.length_append, List.length_replicate]
  omega

/-- A cell that is not empty keeps the columns trimmed. -/
theorem Trimmed.pushAt {columns : List Bytes} (trimmed : Trimmed columns) (idx : Nat)
    {bytes : Bytes} (some : bytes ≠ []) : Trimmed (pushAt columns idx bytes) := by
  right
  rw [pushAt_getD, pushAt_length]
  by_cases last : max columns.length (idx + 1) - 1 = idx
  · rw [if_pos last]
    exact fun none => some (List.append_eq_nil_iff.mp none).2
  · have long : max columns.length (idx + 1) = columns.length := by omega
    rw [if_neg last, List.append_nil, long]
    rcases trimmed with rfl | full
    · exact absurd (by simp) last
    · exact full

/-- A trimmed list of columns has no more of them than any that covers its bytes. -/
theorem Trimmed.length_le {columns : List Bytes} (trimmed : Trimmed columns) {count : Nat}
    (covered : ∀ idx, columns.getD idx [] ≠ [] → idx < count) : columns.length ≤ count := by
  rcases trimmed with rfl | full
  · exact Nat.zero_le _
  · have inside := covered _ full
    omega

/-- What the appending steps of the encoder preserve. -/
structure Kept (kept : Cols → Prop) : Prop where
  wbytes : ∀ cols col bytes, kept cols → kept (cols.wbytes col bytes)
  writeRune : ∀ cols idx v, kept cols → kept (cols.writeRune idx v)
  statZ : ∀ cols idx v, kept cols → kept (cols.statZ idx v)

namespace Kept

variable {kept : Cols → Prop} (steps : Kept kept)

/-- A loop keeps what each of its rounds keeps. -/
theorem foldl {α : Type} (_ : Kept kept) {step : Cols → α → Cols}
    (round : ∀ cols item, kept cols → kept (step cols item)) (items : List α) :
    ∀ {cols : Cols}, kept cols → kept (items.foldl step cols) := by
  induction items with
  | nil => exact fun held => held
  | cons item items ih => exact fun held => ih (round _ item held)

include steps

/-- A varint cell is one of the steps. -/
theorem wv {cols : Cols} (held : kept cols) (col : Col) (v : UInt64) : kept (cols.wv col v) :=
  steps.wbytes cols col _ held

/-- A zigzag cell is one of the steps. -/
theorem wz {cols : Cols} (held : kept cols) (col : Col) (v : Int64) : kept (cols.wz col v) :=
  steps.wv held col _

/-- Fields are made of the steps. -/
theorem wvAll (fields : List (Col × UInt32)) {cols : Cols} (held : kept cols) :
    kept (cols.wvAll fields) :=
  steps.foldl (fun _ field held => steps.wv held field.1 _) fields held

/-- A participant is made of the steps. -/
theorem encodeParticipant {cols : Cols} (held : kept cols) (participant : Participant) :
    kept (encodeParticipant cols participant) := by
  unfold Columnar.encodeParticipant
  apply steps.foldl fun cols stat held => steps.statZ cols _ _ held
  apply steps.wv
  apply steps.foldl fun cols rune held => steps.writeRune cols _ _ held
  apply steps.wv
  exact steps.wvAll _ held

/-- The series of a frame are made of the steps. -/
theorem encodeSeriesAll (series : List (Col × Col × List UInt32)) :
    ∀ (prevSeries : List (List UInt32)) {cols : Cols}, kept cols →
      kept (encodeSeriesAll series prevSeries cols) := by
  induction series with
  | nil => exact fun _ _ held => held
  | cons first series ih =>
      obtain ⟨nCol, vCol, values⟩ := first
      intro prevSeries cols held
      apply ih
      exact steps.foldl (fun _ value held => steps.wz held vCol _) _ (steps.wv held nCol _)

/-- The frames are made of the steps. -/
theorem encodeFrames (frames : List MinuteFrame) :
    ∀ (prevSeries : List (List UInt32)) {cols : Cols}, kept cols →
      kept (encodeFrames frames prevSeries cols) := by
  induction frames with
  | nil => exact fun _ _ held => held
  | cons frame frames ih =>
      intro prevSeries cols held
      apply ih
      exact steps.encodeSeriesAll _ _ (steps.wv held .fMinute _)

/-- Events are made of the steps. -/
theorem encodeEvents {Event : Type} (tCol : Col) (time : Event → UInt32)
    (fields : Event → List (Col × UInt32)) (events : List Event) :
    ∀ (prevT : UInt32) {cols : Cols}, kept cols →
      kept (encodeEvents tCol time fields events prevT cols) := by
  induction events with
  | nil => exact fun _ _ held => held
  | cons event events ih =>
      intro prevT cols held
      apply ih
      exact steps.wvAll _ (steps.wz held tCol _)

/-- A timeline is made of the steps. -/
theorem encodeTimeline (timeline : TimelineLite) {cols : Cols} (held : kept cols) :
    kept (encodeTimeline timeline cols) := by
  unfold Columnar.encodeTimeline
  apply steps.encodeEvents
  apply steps.wv
  apply steps.encodeEvents
  apply steps.wv
  apply steps.encodeEvents
  apply steps.wv
  apply steps.encodeFrames
  exact steps.wv held _ _

/-- A record is made of the steps. -/
theorem encodeRecord {record : MatchRecord} {cols next : Cols} {state after : BlockState}
    (held : kept cols) (encoded : encodeRecord record cols state = .ok (next, after)) :
    kept next := by
  obtain ⟨gidD, _, encoded⟩ := bind_eq_ok.mp encoded
  obtain ⟨startD, _, built⟩ := bind_eq_ok.mp encoded
  have head := steps.wv (steps.wz (steps.wv held .schema record.schemaVersion.toUInt64) .gidD gidD)
    .platLen (.ofNat (asBytes record.platform).length)
  have head := steps.wv (steps.wbytes _ .plat (asBytes record.platform) head) .queue
    record.queueId.toUInt64
  have head := steps.wv (steps.wv (steps.wz head .startD startD) .dur record.durationS.toUInt64)
    .blue (if record.blueWon then 1 else 0)
  have head := steps.wbytes _ .gv (asBytes record.gameVersion)
    (steps.wv head .gvLen (.ofNat (asBytes record.gameVersion).length))
  have head := steps.wv (steps.wv head .pmaj record.patchMajor.toUInt64) .pmin
    record.patchMinor.toUInt64
  have bans := steps.foldl (fun _ (ban : UInt32) held => steps.wv held .bans ban.toUInt64)
    record.bans (steps.wv head .bansN (.ofNat record.bans.length))
  have participants := steps.foldl
    (fun _ participant held => steps.encodeParticipant held participant) record.participants
    (steps.wv bans .nparts (.ofNat record.participants.length))
  have present := steps.wv participants .tlPresent (if record.timeline.isSome then 1 else 0)
  cases timeline : record.timeline with
  | none =>
      rw [timeline] at present built
      cases built
      exact present
  | some timeline' =>
      rw [timeline] at present built
      cases built
      exact steps.encodeTimeline _ present

/-- The records of a block are made of the steps. -/
theorem encodeRecords {decode : Bytes → Except Error MatchRecord} {raws : List Bytes} :
    ∀ {idx : Nat} {cols next : Cols} {state after : BlockState}, kept cols →
      encodeRecords decode raws idx cols state = .ok (next, after) → kept next := by
  induction raws with
  | nil =>
      intro idx cols next state after held encoded
      cases encoded
      exact held
  | cons raw raws ih =>
      intro idx cols next state after held encoded
      obtain ⟨record, _, encoded⟩ := bind_eq_ok.mp encoded
      obtain ⟨⟨mid, between⟩, one, rest⟩ := bind_eq_ok.mp encoded
      exact ih (steps.encodeRecord held (context_eq_ok.mp one)) rest

end Kept

/-- The encoder leaves no empty dynamic column at the end. -/
theorem trimmed_kept : Kept fun cols => Trimmed cols.stat ∧ Trimmed cols.rune where
  wbytes := fun _ _ _ held => held
  writeRune := fun _ idx _ held => ⟨held.1, held.2.pushAt idx (writeVarint_ne_nil _)⟩
  statZ := fun _ idx _ held => ⟨held.1.pushAt idx (writeVarint_ne_nil _), held.2⟩

/-! ## Lengths -/

/-- A greater value has no shorter varint. -/
theorem writeVarintLoop_length_mono (rounds : Nat) : ∀ {a b : UInt64}, a.toNat ≤ b.toNat →
    (writeVarintLoop rounds a).length ≤ (writeVarintLoop rounds b).length := by
  induction rounds with
  | zero => exact fun _ => Nat.le_refl _
  | succ rounds ih =>
      intro a b below
      have shifted : (a >>> 7).toNat ≤ (b >>> 7).toNat := by
        rw [shift_toNat, shift_toNat]
        exact Nat.div_le_div_right below
      rw [writeVarintLoop, writeVarintLoop]
      by_cases last : a >>> 7 = 0
      · rw [if_pos last]
        split
        · exact Nat.le_refl _
        · exact Nat.succ_le_succ (Nat.zero_le _)
      · have goes : b >>> 7 ≠ 0 := by
          intro none
          rw [none] at shifted
          exact last (UInt64.toNat_inj.mp (Nat.le_zero.mp shifted))
        rw [if_neg last, if_neg goes]
        exact Nat.succ_le_succ (ih shifted)

/-- A smaller count is written in no more bytes. -/
theorem writeVarint_length_mono {m n : Nat} (below : m ≤ n) (small : n < usizeBound) :
    (writeVarint (.ofNat m)).length ≤ (writeVarint (.ofNat n)).length := by
  apply writeVarintLoop_length_mono
  have room : m < 2 ^ 64 := Nat.lt_of_le_of_lt below small
  rw [UInt64.toNat_ofNat', UInt64.toNat_ofNat', Nat.mod_eq_of_lt room,
    Nat.mod_eq_of_lt (show n < 2 ^ 64 from small)]
  exact below

/-- Bytes that a column of some length takes in a payload. -/
def columnSize (len : Nat) : Nat := (writeVarint (.ofNat len)).length + len

/-- Fewer and shorter columns take no more bytes. -/
theorem columnSizes_le {columns : List Bytes} :
    ∀ {others : List Bytes}, columns.length ≤ others.length →
      (∀ i, (columns.getD i []).length ≤ (others.getD i []).length) →
      (∀ column ∈ others, column.length < usizeBound) →
      (columns.map fun column => columnSize column.length).sum ≤
        (others.map fun column => columnSize column.length).sum := by
  induction columns with
  | nil => exact fun _ _ _ => Nat.zero_le _
  | cons column columns ih =>
      intro others fewer shorter sized
      cases others with
      | nil => exact absurd fewer (by simp)
      | cons other others =>
          have first : column.length ≤ other.length := shorter 0
          have written := writeVarint_length_mono first (sized other List.mem_cons_self)
          have rest := ih (Nat.le_of_succ_le_succ fewer) (fun i => shorter (i + 1))
            fun later member => sized later (List.mem_cons_of_mem _ member)
          simp only [List.map_cons, List.sum_cons, columnSize] at rest ⊢
          omega

/-- The lengths section takes at least the minimal varints. -/
theorem readLengths_paid {payload : Bytes} {left : Nat} : ∀ {idx pos next : Nat}
    {lengths : List Nat}, Manifest.readLengths payload left idx pos = .ok (lengths, next) →
      pos + (lengths.map fun len => (writeVarint (.ofNat len)).length).sum ≤ next := by
  induction left with
  | zero =>
      intro idx pos next lengths read
      cases read
      exact Nat.le_refl _
  | succ left ih =>
      intro idx pos next lengths read
      obtain ⟨⟨raw, mid⟩, first, read⟩ := bind_eq_ok.mp read
      obtain ⟨len, sized, read⟩ := bind_eq_ok.mp read
      obtain ⟨⟨others, last⟩, rest, built⟩ := bind_eq_ok.mp read
      cases built
      have paid := writeVarint_length_le first
      have more := ih rest
      obtain rfl := toUsize_eq_ok.mp (context_eq_ok.mp sized)
      rw [List.map_cons, List.sum_cons, UInt64.ofNat_toNat]
      omega

/-- The manifest and the columns of a payload take at least what the encoder writes. -/
theorem Parsed.paid {payload : Bytes} {manifest : Manifest} (facts : Parsed payload manifest) :
    5 + (writeVarint (.ofNat manifest.records)).length +
        (writeVarint (.ofNat manifest.statCols)).length +
        (writeVarint (.ofNat manifest.runeCols)).length +
        (manifest.columns.map fun column => columnSize column.length).sum ≤ payload.length := by
  obtain ⟨records, statCols, runeCols, afterRecords, afterStat, afterRune, lengths, dataStart,
    readRecords, readStat, readRune, readLengths, _, whole, _, rfl⟩ := facts
  have recordsPaid := writeVarint_length_le readRecords
  have statPaid := writeVarint_length_le readStat
  have runePaid := writeVarint_length_le readRune
  have lengthsPaid := readLengths_paid readLengths
  have sliced := slices_lengths lengths dataStart (Nat.le_of_eq whole)
  have sizes : ((Manifest.slices payload lengths dataStart).map fun column =>
      columnSize column.length).sum =
        (lengths.map fun len => (writeVarint (.ofNat len)).length).sum + lengths.sum := by
    calc ((Manifest.slices payload lengths dataStart).map fun column =>
          columnSize column.length).sum
        = (((Manifest.slices payload lengths dataStart).map List.length).map columnSize).sum := by
          rw [List.map_map]
          rfl
      _ = (lengths.map fun len => (writeVarint (.ofNat len)).length + len).sum := by
          rw [sliced]
          rfl
      _ = _ := by rw [List.sum_map_add, List.map_id']
  simp only [UInt64.ofNat_toNat, sizes]
  omega

/-! ## Contents and records -/

/-- The bytes of a text. -/
def IsUtf8 (bytes : Bytes) : Prop := ∃ text : String, asBytes text = bytes

/-- Contents whose texts are texts are those of a record. -/
theorem exists_record {contents : Contents} (platform : IsUtf8 contents.platform)
    (gameVersion : IsUtf8 contents.gameVersion) :
    ∃ record : MatchRecord, MatchRecord.contents record = contents := by
  obtain ⟨platform, same⟩ := platform
  obtain ⟨gameVersion, same'⟩ := gameVersion
  refine ⟨{ schemaVersion := contents.schemaVersion, gameId := contents.gameId
            platform := platform, queueId := contents.queueId
            gameStartMs := contents.gameStartMs, durationS := contents.durationS
            blueWon := contents.blueWon, gameVersion := gameVersion
            patchMajor := contents.patchMajor, patchMinor := contents.patchMinor
            participants := contents.participants, timeline := contents.timeline
            bans := contents.bans }, ?_⟩
  simp only [MatchRecord.contents, same, same']

/-- Contents with proper texts are those of records. -/
theorem exists_records {list : List Contents}
    (text : ∀ contents ∈ list, IsUtf8 contents.platform ∧ IsUtf8 contents.gameVersion) :
    ∃ records : List MatchRecord, records.map MatchRecord.contents = list := by
  induction list with
  | nil => exact ⟨[], rfl⟩
  | cons contents list ih =>
      obtain ⟨platform, gameVersion⟩ := text contents List.mem_cons_self
      obtain ⟨record, same⟩ := exists_record platform gameVersion
      obtain ⟨records, rest⟩ := ih fun other member => text other (List.mem_cons_of_mem _ member)
      exact ⟨record :: records, by rw [List.map_cons, same, rest]⟩

/-- The part of a record's contents is the part the encoder writes. -/
theorem contentsPart_eq (state : BlockState) (record : MatchRecord) :
    contentsPart state (MatchRecord.contents record) = recordPart state record := by
  rw [recordPart_eq_readOrder]
  simp only [contentsPart, headPart, Streams.append_assoc]
  rfl

/-- The parts of contents are those of the records. -/
theorem contentsParts_eq (records : List MatchRecord) : ∀ state,
    contentsParts state (records.map MatchRecord.contents) = recordsPart state records := by
  induction records with
  | nil => exact fun _ => rfl
  | cons record records ih =>
      intro state
      rw [List.map_cons, contentsParts, recordsPart, contentsPart_eq]
      exact congrArg _ (ih _)

/-- Differences of contents that fit are those of the records. -/
theorem deltasFitFrom_of_contents {records : List MatchRecord} : ∀ {state : BlockState},
    ContentsFitFrom state (records.map MatchRecord.contents) → DeltasFitFrom state records := by
  induction records with
  | nil => exact fun _ => trivial
  | cons record records ih => exact fun fits => ⟨fits.1, ih fits.2⟩

/-! ## Encoding again -/

/-- Lengths and data of columns, column by column. -/
theorem columnSizes_eq (columns : List Bytes) :
    (lengthsBytes columns).length + columns.flatten.length =
      (columns.map fun column => columnSize column.length).sum := by
  induction columns with
  | nil => rfl
  | cons column columns ih =>
      rw [lengthsBytes_cons, List.length_append, List.flatten_cons, List.length_append,
        List.map_cons, List.sum_cons, columnSize]
      omega

/-- A column that is not empty is within those that cover it. -/
theorem lt_of_covered {columns : List Bytes} {idx : Nat} {bytes : Bytes}
    (covered : bytes.length ≤ (columns.getD idx []).length) (some : bytes ≠ []) :
    idx < columns.length := by
  refine Nat.lt_of_not_le fun outside => some ?_
  rw [List.getD_eq_getElem?_getD, List.getElem?_eq_none outside] at covered
  exact List.eq_nil_of_length_eq_zero (Nat.le_zero.mp covered)

/-- The fixed columns are covered one by one. -/
theorem fixed_covered {fixed : Col → Bytes} {columns : List Bytes}
    (covered : ∀ col, (fixed col).length ≤ (columns.getD (Checked.place col) []).length) (i : Nat) :
    ((Col.all.map fixed).getD i []).length ≤ ((columns.take nmisc).getD i []).length := by
  rw [List.getD_eq_getElem?_getD, List.getD_eq_getElem?_getD, List.getElem?_map]
  by_cases inside : i < Col.all.length
  · have own : Checked.place Col.all[i] = i := List.Nodup.idxOf_getElem all_nodup i inside
    have here := covered Col.all[i]
    rw [own, List.getD_eq_getElem?_getD] at here
    have fifty : i < nmisc := inside
    rw [List.getElem?_eq_getElem inside, List.getElem?_take_of_lt fifty]
    exact here
  · rw [List.getElem?_eq_none (Nat.le_of_not_lt inside)]
    exact Nat.zero_le _

/-- Encoding what a block decodes to takes no more bytes than the block. -/
theorem payloadBytes_length_le {decode : Bytes → Except Error MatchRecord} {payload : Bytes}
    {manifest : Manifest} {records : List MatchRecord} {cols : Cols} {state : BlockState}
    (parsed : Manifest.parse payload = .ok manifest) (count : records.length = manifest.records)
    (covered : ∀ column, (recordsPart {} records column).length ≤
      (columnOf manifest.columns manifest.statCols column).length)
    (encoded : encodeRecords decode (records.map MatchRecord.encodeToVec) 0 .new {} =
      .ok (cols, state))
    (streams : cols.streams = recordsPart {} records) :
    (payloadBytes records.length cols).length ≤ payload.length := by
  obtain ⟨facts⟩ := parse_inv parsed
  have paid := facts.paid
  have columns := facts.columns_length
  have sized : ∀ column ∈ manifest.columns, column.length < usizeBound :=
    fun column member => Nat.lt_of_le_of_lt (parse_columns_le parsed column member) facts.sized
  obtain ⟨trimmedStat, trimmedRune⟩ := trimmed_kept.encodeRecords ⟨.inl rfl, .inl rfl⟩ encoded
  rw [← streams] at covered
  have statShorter : ∀ idx, (cols.stat.getD idx []).length ≤
      (((manifest.columns.drop nmisc).take manifest.statCols).getD idx []).length :=
    fun idx => covered (.stat idx)
  have runeShorter : ∀ idx, (cols.rune.getD idx []).length ≤
      ((manifest.columns.drop (nmisc + manifest.statCols)).getD idx []).length :=
    fun idx => covered (.rune idx)
  have fewerStat := trimmedStat.length_le fun idx some => lt_of_covered (statShorter idx) some
  have fewerRune := trimmedRune.length_le fun idx some => lt_of_covered (runeShorter idx) some
  have fixedSizes := @columnSizes_le (Col.all.map cols.fixed) (manifest.columns.take nmisc)
    (by rw [List.length_map, List.length_take_of_le (by omega)]; rfl)
    (fixed_covered fun col => covered (.fixed col))
    fun column member => sized column (List.mem_of_mem_take member)
  have statSizes := columnSizes_le fewerStat statShorter
    fun column member => sized column (List.mem_of_mem_drop (List.mem_of_mem_take member))
  have runeSizes := columnSizes_le fewerRune runeShorter
    fun column member => sized column (List.mem_of_mem_drop member)
  have written : (cols.columns.map fun column => columnSize column.length).sum =
      ((Col.all.map cols.fixed).map fun column => columnSize column.length).sum +
        (cols.stat.map fun column => columnSize column.length).sum +
          (cols.rune.map fun column => columnSize column.length).sum := by
    rw [Cols.columns, List.map_append, List.map_append, List.sum_append, List.sum_append]
  have cut : manifest.columns = manifest.columns.take nmisc ++
      ((manifest.columns.drop nmisc).take manifest.statCols ++
        manifest.columns.drop (nmisc + manifest.statCols)) := by
    rw [← List.drop_drop, List.take_append_drop, List.take_append_drop]
  rw [cut, List.map_append, List.map_append, List.sum_append, List.sum_append] at paid
  rw [List.length_take, List.length_drop] at fewerStat
  rw [List.length_drop] at fewerRune
  have small := facts.columns_small
  have statCount : (writeVarint (.ofNat cols.stat.length)).length ≤
      (writeVarint (.ofNat manifest.statCols)).length :=
    writeVarint_length_mono (by omega) (by omega)
  have runeCount : (writeVarint (.ofNat cols.rune.length)).length ≤
      (writeVarint (.ofNat manifest.runeCols)).length :=
    writeVarint_length_mono (by omega) (by omega)
  have total := payloadBytes_length records.length cols
  have sizes := columnSizes_eq cols.columns
  rw [count] at total
  rw [count]
  omega

/-- Only slices decode. -/
theorem sized_of_decodeBlock {payload : Bytes} {raws : List Bytes}
    (decoded : decodeBlock payload = .ok raws) : payload.length < usizeBound := by
  obtain ⟨manifest, parsed, -⟩ := bind_eq_ok.mp decoded
  obtain ⟨facts⟩ := parse_inv parsed
  exact facts.sized

/-- The contents that a block decodes to. -/
def contentsOf (payload : Bytes) : List Contents :=
  match Checked.decodeBlock payload with
  | .ok contents => contents
  | .error _ => []

/-- The records of a block are the canonical bytes of its contents. -/
theorem decodeBlock_contents {payload : Bytes} {raws : List Bytes}
    (decoded : decodeBlock payload = .ok raws) :
    Checked.decodeBlock payload = .ok (contentsOf payload) ∧
      raws = (contentsOf payload).map Contents.encodeToVec := by
  have same := decodeBlock_checked (sized_of_decodeBlock decoded)
  rw [decoded] at same
  cases run : Checked.decodeBlock payload with
  | error fault =>
      rw [run] at same
      cases same
  | ok contents =>
      rw [run] at same
      have own : contentsOf payload = contents := by rw [contentsOf, run]
      rw [own]
      exact ⟨rfl, (Except.ok.inj same).symm⟩

/-- **Decoded blocks are canonical.** Whatever block decodes, to records whose two
texts are valid UTF-8, its records are the canonical bytes of the records they
decode to; encoding them succeeds, and gives a block that decodes to them again. -/
theorem decodeBlock_canonical (decode : Bytes → Except Error MatchRecord) {payload : Bytes}
    {raws : List Bytes} (decoded : decodeBlock payload = .ok raws)
    (text : ∀ contents ∈ contentsOf payload,
      IsUtf8 contents.platform ∧ IsUtf8 contents.gameVersion)
    (inverse : ∀ record : MatchRecord, MatchRecord.contents record ∈ contentsOf payload →
      decode record.encodeToVec = .ok record) :
    raws = (contentsOf payload).map Contents.encodeToVec ∧
      (∀ raw ∈ raws, ∃ record : MatchRecord,
        decode raw = .ok record ∧ record.encodeToVec = raw) ∧
      ∃ again, encodeBlock decode raws = .ok again ∧ decodeBlock again = .ok raws := by
  have sized := sized_of_decodeBlock decoded
  obtain ⟨checked, written⟩ := decodeBlock_contents decoded
  obtain ⟨records, same⟩ := exists_records text
  have canonical : raws = records.map MatchRecord.encodeToVec := by
    rw [written, ← same, List.map_map]
    rfl
  have inverse : ∀ record ∈ records, decode record.encodeToVec = .ok record := by
    intro record member
    exact inverse record (same ▸ List.mem_map.mpr ⟨record, member, rfl⟩)
  obtain ⟨manifest, parsed, count, fits, covered, -⟩ := decodeBlock_takes checked sized
  rw [← same] at count fits covered
  rw [contentsParts_eq] at covered
  rw [List.length_map] at count
  have fit := deltasFitFrom_of_contents fits
  obtain ⟨cols, state, encoded, streams⟩ := encodeRecords_streams records 0 .new {} inverse fit
  rw [Cols.new_streams, Streams.empty_append] at streams
  have small := Nat.lt_of_le_of_lt
    (payloadBytes_length_le parsed count covered encoded streams) sized
  refine ⟨written, ?_, ?_⟩
  · intro raw member
    rw [canonical] at member
    obtain ⟨record, inside, rfl⟩ := List.mem_map.mp member
    exact ⟨record, inverse record inside, rfl⟩
  · rw [canonical]
    exact ⟨_, encodeBlock_payload encoded streams fit small⟩

/-- Different texts have different bytes. -/
theorem asBytes_injective {first second : String} (same : asBytes first = asBytes second) :
    first = second := by
  have bytes : first.toUTF8 = second.toUTF8 := ByteArray.ext (Array.toList_inj.mp same)
  exact String.toByteArray_inj.mp bytes

/-- Different records have different contents. -/
theorem contents_injective {first second : MatchRecord}
    (same : MatchRecord.contents first = MatchRecord.contents second) : first = second := by
  cases first
  cases second
  simp only [MatchRecord.contents, Contents.mk.injEq] at same
  simp only [MatchRecord.mk.injEq]
  exact ⟨same.1, same.2.1, asBytes_injective same.2.2.1, same.2.2.2.1, same.2.2.2.2.1,
    same.2.2.2.2.2.1, same.2.2.2.2.2.2.1, asBytes_injective same.2.2.2.2.2.2.2.1,
    same.2.2.2.2.2.2.2.2⟩

/-- A block of one record, with non-minimal varints for the record count and the
schema version, and an empty stat column that no record uses. -/
def looseBlock : Bytes :=
  magic ++ [version, 0x81, 0x00, 1, 0] ++
    Col.all.map (fun col => if col = .schema then 2 else if col ∈ [.gidD, .platLen, .queue,
      .startD, .dur, .blue, .gvLen, .pmaj, .pmin, .bansN, .nparts, .tlPresent] then 1 else 0) ++
    [0] ++ [0x81, 0x00] ++ List.replicate 12 0

/-- The record of the loose block. -/
def looseRecord : MatchRecord where
  schemaVersion := 1
  gameId := 0
  platform := ""
  queueId := 0
  gameStartMs := 0
  durationS := 0
  blueWon := false
  gameVersion := ""
  patchMajor := 0
  patchMinor := 0
  participants := []
  timeline := none
  bans := []

/-- A decoder of the loose record's bytes. -/
def looseDecode (raw : Bytes) : Except Error MatchRecord :=
  if raw = looseRecord.encodeToVec then .ok looseRecord else bail "not the loose record"

/-- The loose block is written again as a canonical one, which is another payload. -/
theorem decodeBlock_canonical_loose :
    ∃ again, encodeBlock looseDecode [looseRecord.encodeToVec] = .ok again ∧
      decodeBlock again = .ok [looseRecord.encodeToVec] ∧ again ≠ looseBlock := by
  have own : contentsOf looseBlock = [MatchRecord.contents looseRecord] := by decide +kernel
  have decoded : decodeBlock looseBlock = .ok [looseRecord.encodeToVec] := by decide +kernel
  have text : ∀ contents ∈ contentsOf looseBlock,
      IsUtf8 contents.platform ∧ IsUtf8 contents.gameVersion := by
    intro contents member
    rw [own] at member
    obtain rfl := List.mem_singleton.mp member
    exact ⟨⟨"", rfl⟩, "", rfl⟩
  have inverse : ∀ record : MatchRecord, MatchRecord.contents record ∈ contentsOf looseBlock →
      looseDecode record.encodeToVec = .ok record := by
    intro record member
    rw [own] at member
    obtain rfl := contents_injective (List.mem_singleton.mp member)
    exact if_pos rfl
  obtain ⟨-, -, again, encoded, back⟩ :=
    decodeBlock_canonical looseDecode decoded text inverse
  refine ⟨again, encoded, back, ?_⟩
  rintro rfl
  have shorter : (encodeBlock looseDecode [looseRecord.encodeToVec]).toOption.map List.length ≠
      some looseBlock.length := by decide +kernel
  rw [encoded] at shorter
  exact shorter rfl

end LolCrawler.Columnar
