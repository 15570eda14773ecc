import LolCrawler.Columnar.Decode

/-! # What a successful decode guarantees

Reading never moves a cursor back, and each record reads at least one byte of the
schema column, so a payload holds no more records than bytes
(`length_le_of_decodeBlock`). A payload that `encodeBlock` returns has been
decoded: it reads back to the records it was made from (`decodeBlock_of_encodeBlock`).
-/

namespace LolCrawler.Columnar

open Foundation ColReaders

/-- A varint takes at least one byte. -/
theorem readVarintLoop_advances {bytes : Bytes} {name : String} {value : UInt64} {next : Nat} :
    ∀ {rounds pos : Nat} {out : UInt64},
      readVarintLoop bytes name rounds pos out = .ok (value, next) → pos < next := by
  intro rounds
  induction rounds with
  | zero =>
      intro pos out read
      simp [readVarintLoop, bail] at read
  | succ rounds ih =>
      intro pos out read
      unfold readVarintLoop at read
      split at read
      · simp only at read
        split at read
        · simp [bail] at read
        · split at read
          · simp only [Except.ok.injEq, Prod.mk.injEq] at read
            omega
          · have := ih read
            omega
      · simp [bail] at read

/-! ## Cursors move forward -/

/-- The cursors of `later` are over the same columns, and none is behind. -/
def Ahead (readers later : ColReaders) : Prop :=
  ∀ col, (later.fixed col).bytes = (readers.fixed col).bytes ∧
    (readers.fixed col).pos ≤ (later.fixed col).pos

/-- No cursor moves. -/
theorem Ahead.refl (readers : ColReaders) : Ahead readers readers :=
  fun _ => ⟨rfl, Nat.le_refl _⟩

/-- Cursors that move on and on have moved on. -/
theorem Ahead.trans {first second third : ColReaders} (left : Ahead first second)
    (right : Ahead second third) : Ahead first third :=
  fun col => ⟨(right col).1.trans (left col).1, (left col).2.trans (right col).2⟩

/-- An action that moves no cursor back. -/
def Advances {α : Type} (action : Read α) : Prop :=
  ∀ readers value later, action readers = .ok (value, later) → Ahead readers later

namespace Advances

variable {α β : Type}

/-- A value moves no cursor. -/
theorem pure (value : α) : Advances (Pure.pure value : Read α) := by
  intro readers result later run
  cases run
  exact Ahead.refl readers

/-- Two reads move on, one after the other. -/
theorem bind {first : Read α} {second : α → Read β} (left : Advances first)
    (right : ∀ value, Advances (second value)) : Advances (first >>= second) := by
  intro readers result later run
  obtain ⟨⟨value, mid⟩, firstRun, secondRun⟩ := bind_eq_ok.mp run
  exact (left _ _ _ firstRun).trans (right _ _ _ _ secondRun)

/-- A lifted result moves no cursor. -/
theorem lift (result : Except Error α) : Advances (liftM result : Read α) := by
  intro readers value later run
  obtain ⟨inner, -, same⟩ := bind_eq_ok.mp run
  cases same
  exact Ahead.refl readers

end Advances

/-- Replacing one cursor by a later one over the same column. -/
theorem ahead_update {readers : ColReaders} {col : Col} {reader : ColReader}
    (same : reader.bytes = (readers.fixed col).bytes)
    (forward : (readers.fixed col).pos ≤ reader.pos) :
    Ahead readers { readers with fixed := Function.update readers.fixed col reader } := by
  intro other
  by_cases here : other = col
  · subst here
    simp only [Function.update_self]
    exact ⟨same, forward⟩
  · simp only [Function.update_of_ne here, le_refl, and_self]

/-- Reading a varint moves its own cursor. -/
theorem rv_moves {col : Col} {readers later : ColReaders} {value : UInt64}
    (run : rv col readers = .ok (value, later)) :
    Ahead readers later ∧ (readers.fixed col).pos < (later.fixed col).pos := by
  obtain ⟨⟨raw, reader⟩, read, same⟩ := bind_eq_ok.mp run
  obtain ⟨⟨raw', pos⟩, loop, built⟩ := bind_eq_ok.mp read
  have moved := readVarintLoop_advances loop
  cases built
  cases same
  refine ⟨ahead_update rfl (Nat.le_of_lt moved), ?_⟩
  simpa only [Function.update_self] using moved

/-- A varint cell moves its cursor on. -/
theorem rv_advances (col : Col) : Advances (rv col) :=
  fun _ _ _ run => (rv_moves run).1

/-- A zigzag cell moves its cursor on. -/
theorem rz_advances (col : Col) : Advances (rz col) :=
  (rv_advances col).bind fun _ => .pure _

/-- A `u32` cell moves its cursor on. -/
theorem rv32_advances (col : Col) (name : String) : Advances (rv32 col name) :=
  (rv_advances col).bind fun _ => .lift _

/-- The length of a vector moves its cursor on. -/
theorem rvLen_advances (col : Col) (name : String) : Advances (rvLen col name) :=
  (rv_advances col).bind fun _ => .lift _

/-- A cell of bytes moves its cursor on. -/
theorem rbytes_advances (col : Col) (len : Nat) : Advances (rbytes col len) := by
  intro readers value later run
  obtain ⟨⟨raw, reader⟩, read, same⟩ := bind_eq_ok.mp run
  obtain ⟨last, add, rest⟩ := bind_eq_ok.mp read
  obtain ⟨_, _, built⟩ := bind_eq_ok.mp rest
  have forward : (readers.fixed col).pos ≤ last := by
    unfold checkedAdd at add
    split at add
    · simp only [orBail, Except.ok.injEq] at add
      omega
    · simp [orBail, bail] at add
  cases built
  cases same
  exact ahead_update rfl forward

/-- A cell of a stat column moves its cursor on. -/
theorem statZ_advances (idx : Nat) : Advances (statZ idx) := by
  intro readers value later run
  obtain ⟨_, _, rest⟩ := bind_eq_ok.mp run
  obtain ⟨_, _, built⟩ := bind_eq_ok.mp rest
  cases built
  exact Ahead.refl readers

/-- A cell of a rune column moves its cursor on. -/
theorem runeV_advances (idx : Nat) : Advances (runeV idx) := by
  intro readers value later run
  obtain ⟨_, _, rest⟩ := bind_eq_ok.mp run
  obtain ⟨_, _, built⟩ := bind_eq_ok.mp rest
  cases built
  exact Ahead.refl readers

/-! ## Records move forward -/

/-- Fields move their cursors on. -/
theorem decodeFields_advances (fields : List (UInt32 × Col × String)) :
    Advances (decodeFields fields) := by
  induction fields with
  | nil => exact .pure _
  | cons field fields ih =>
      exact (rv32_advances _ _).bind fun _ => ih.bind fun _ => .pure _

/-- A loop moves on if its rounds do. -/
theorem decodeLoop_advances {body : Nat → Read Bytes} (round : ∀ idx, Advances (body idx))
    (left : Nat) : ∀ idx, Advances (decodeLoop body left idx) := by
  induction left with
  | zero => exact fun _ => .pure _
  | succ left ih =>
      intro idx
      exact (round idx).bind fun _ => (ih _).bind fun _ => .pure _

/-- A rune moves its cursor on. -/
theorem decodeRune_advances (idx : Nat) : Advances (decodeRune idx) :=
  (runeV_advances idx).bind fun _ => (Advances.lift _).bind fun _ => .pure _

/-- A stat moves its cursor on. -/
theorem decodeStat_advances (idx : Nat) : Advances (decodeStat idx) :=
  (statZ_advances idx).bind fun _ => .pure _

/-- A participant moves its cursors on. -/
theorem decodeParticipant_advances (idx : Nat) : Advances (decodeParticipant idx) :=
  (decodeFields_advances _).bind fun _ =>
    (rvLen_advances _ _).bind fun _ =>
    (decodeLoop_advances decodeRune_advances _ _).bind fun _ =>
    (rvLen_advances _ _).bind fun _ =>
    (decodeLoop_advances decodeStat_advances _ _).bind fun _ => .pure _

/-- The values of a series move their cursor on. -/
theorem decodeValues_advances (vCol : Col) (name : String) (prev : List UInt32) (left : Nat) :
    ∀ slot, Advances (decodeValues vCol name prev left slot) := by
  induction left with
  | zero => exact fun _ => .pure _
  | succ left ih =>
      intro slot
      exact (rz_advances _).bind fun _ =>
        (Advances.lift _).bind fun _ => (ih _).bind fun _ => .pure _

/-- The series of a frame move their cursors on. -/
theorem decodeSeriesAll_advances (series : List (UInt32 × Col × Col × String)) :
    ∀ prev, Advances (decodeSeriesAll series prev) := by
  induction series with
  | nil => exact fun _ => .pure _
  | cons one series ih =>
      intro prev
      exact (rvLen_advances _ _).bind fun _ =>
        (decodeValues_advances _ _ _ _ _).bind fun _ => (ih _).bind fun _ => .pure _

/-- The frames move their cursors on. -/
theorem decodeFrames_advances (left : Nat) : ∀ prev, Advances (decodeFrames left prev) := by
  induction left with
  | zero => exact fun _ => .pure _
  | succ left ih =>
      intro prev
      exact (rv32_advances _ _).bind fun _ =>
        (decodeSeriesAll_advances _ _).bind fun _ => (ih _).bind fun _ => .pure _

/-- Events move their cursors on. -/
theorem decodeEvents_advances (field : UInt32) (tCol : Col) (tName : String)
    (fields : List (UInt32 × Col × String)) (left : Nat) :
    ∀ prev, Advances (decodeEvents field tCol tName fields left prev) := by
  induction left with
  | zero => exact fun _ => .pure _
  | succ left ih =>
      intro prev
      exact (rz_advances _).bind fun _ => (Advances.lift _).bind fun _ =>
        (decodeFields_advances _).bind fun _ => (ih _).bind fun _ => .pure _

/-- A timeline moves its cursors on. -/
theorem decodeTimeline_advances : Advances decodeTimeline :=
  (rvLen_advances _ _).bind fun _ => (decodeFrames_advances _ _).bind fun _ =>
    (rvLen_advances _ _).bind fun _ => (decodeEvents_advances _ _ _ _ _ _).bind fun _ =>
    (rvLen_advances _ _).bind fun _ => (decodeEvents_advances _ _ _ _ _ _).bind fun _ =>
    (rvLen_advances _ _).bind fun _ => (decodeEvents_advances _ _ _ _ _ _).bind fun _ => .pure _

/-- A timeline that may be absent moves its cursors on. -/
theorem decodePresent_advances (tlPresent : UInt64) : Advances (decodePresent tlPresent) := by
  unfold decodePresent
  split
  · exact decodeTimeline_advances.bind fun _ => .pure _
  · exact .pure _

/-- A ban moves its cursor on. -/
theorem decodeBan_advances (idx : Nat) : Advances (decodeBan idx) :=
  (rv32_advances _ _).bind fun _ => .pure _

/-- A record reads its schema version, and then moves no cursor back. -/
theorem decodeRecord_moves {state after : BlockState} {readers later : ColReaders}
    {record : Bytes} (run : decodeRecord state readers = .ok ((record, after), later)) :
    Ahead readers later ∧ (readers.fixed .schema).pos < (later.fixed .schema).pos := by
  obtain ⟨⟨schema, mid⟩, first, rest⟩ := bind_eq_ok.mp run
  obtain ⟨⟨raw, mid'⟩, read, lifted⟩ := bind_eq_ok.mp first
  obtain ⟨forward, moved⟩ := rv_moves read
  obtain ⟨_, _, same⟩ := bind_eq_ok.mp lifted
  cases same
  have others : Ahead mid later := by
    refine Advances.bind (rz_advances _) (fun _ => ?_) _ _ _ rest
    exact (Advances.lift _).bind fun _ => (rvLen_advances _ _).bind fun _ =>
      (rbytes_advances _ _).bind fun _ => (rv32_advances _ _).bind fun _ =>
      (rz_advances _).bind fun _ => (Advances.lift _).bind fun _ =>
      (rv32_advances _ _).bind fun _ => (rv_advances _).bind fun _ =>
      (Advances.lift _).bind fun _ => (rvLen_advances _ _).bind fun _ =>
      (rbytes_advances _ _).bind fun _ => (rv32_advances _ _).bind fun _ =>
      (rv32_advances _ _).bind fun _ => (rvLen_advances _ _).bind fun _ =>
      (decodeLoop_advances decodeParticipant_advances _ _).bind fun _ =>
      (rv_advances _).bind fun _ => (Advances.lift _).bind fun _ =>
      (decodePresent_advances _).bind fun _ => (rvLen_advances _ _).bind fun _ =>
      (decodeLoop_advances decodeBan_advances _ _).bind fun _ => .pure _
  exact ⟨forward.trans others, Nat.lt_of_lt_of_le moved (others .schema).2⟩

/-- The records of a block are as many as were asked for, and each takes a byte at least. -/
theorem decodeRecords_moves {later : ColReaders} {left : Nat} :
    ∀ {idx : Nat} {state : BlockState} {readers : ColReaders} {records : List Bytes},
      decodeRecords left idx state readers = .ok (records, later) →
        records.length = left ∧ Ahead readers later ∧
          (readers.fixed .schema).pos + left ≤ (later.fixed .schema).pos := by
  induction left with
  | zero =>
      intro idx state readers records run
      cases run
      exact ⟨rfl, Ahead.refl _, Nat.le_refl _⟩
  | succ left ih =>
      intro idx state readers records run
      obtain ⟨⟨⟨record, after⟩, mid⟩, first, rest⟩ := bind_eq_ok.mp run
      obtain ⟨⟨tail, mid'⟩, second, built⟩ := bind_eq_ok.mp rest
      obtain ⟨forward, moved⟩ := decodeRecord_moves (context_eq_ok.mp first)
      cases built
      obtain ⟨count, forward', moved'⟩ := ih second
      refine ⟨?_, forward.trans forward', ?_⟩
      · rw [List.length_cons, count]
      · omega

/-! ## The manifest -/

/-- A checked sum is a sum that fits. -/
theorem checkedAdd_eq_some {a b total : Nat} :
    checkedAdd a b = some total ↔ total = a + b ∧ a + b < usizeBound := by
  unfold checkedAdd
  split <;> grind

/-- A checked total is the sum of the lengths. -/
theorem foldlM_checkedAdd_eq_some {lengths : List Nat} : ∀ {acc total : Nat},
    lengths.foldlM checkedAdd acc = some total → total = acc + lengths.sum := by
  induction lengths with
  | nil =>
      intro acc total added
      rw [List.foldlM_nil] at added
      exact (Option.some.inj added).symm
  | cons len lengths ih =>
      intro acc total added
      rw [List.foldlM_cons] at added
      obtain ⟨mid, first, rest⟩ := Option.bind_eq_some_iff.mp added
      have sum := ih rest
      have here := (checkedAdd_eq_some.mp first).1
      rw [List.sum_cons]
      omega

/-- A count that is read is the value. -/
theorem toUsize_eq_ok {value : UInt64} {name : String} {count : Nat} :
    toUsize value name = .ok count ↔ count = value.toNat := by
  have below : value.toNat < usizeBound := value.toNat_lt
  simp only [toUsize, below, ↓reduceIte, Except.ok.injEq, eq_comm]

/-- What a manifest that parses was read from: the sums have been checked. -/
structure Parsed (payload : Bytes) (manifest : Manifest) where
  records : UInt64
  statCols : UInt64
  runeCols : UInt64
  afterRecords : Nat
  afterStat : Nat
  afterRune : Nat
  lengths : List Nat
  dataStart : Nat
  readRecords : readVarintAt payload 5 "record count" = .ok (records, afterRecords)
  readStat : readVarintAt payload afterRecords "stat column count" = .ok (statCols, afterStat)
  readRune : readVarintAt payload afterStat "rune column count" = .ok (runeCols, afterRune)
  readLengths : Manifest.readLengths payload (nmisc + (statCols.toNat + runeCols.toNat)) 0
    afterRune = .ok (lengths, dataStart)
  counted : nmisc + statCols.toNat + runeCols.toNat < usizeBound
  whole : dataStart + lengths.sum = payload.length
  sized : payload.length < usizeBound
  same : manifest = ⟨records.toNat, statCols.toNat, runeCols.toNat,
    Manifest.slices payload lengths dataStart⟩

/-- Parsing a manifest, step by step. -/
theorem parse_inv {payload : Bytes} {manifest : Manifest}
    (parsed : Manifest.parse payload = .ok manifest) : Nonempty (Parsed payload manifest) := by
  obtain ⟨_, _, parsed⟩ := bind_eq_ok.mp parsed
  obtain ⟨_, _, parsed⟩ := bind_eq_ok.mp parsed
  obtain ⟨_, _, parsed⟩ := bind_eq_ok.mp parsed
  obtain ⟨⟨records, afterRecords⟩, readRecords, parsed⟩ := bind_eq_ok.mp parsed
  obtain ⟨_, counted, parsed⟩ := bind_eq_ok.mp parsed
  cases toUsize_eq_ok.mp counted
  obtain ⟨⟨statCols, afterStat⟩, readStat, parsed⟩ := bind_eq_ok.mp parsed
  obtain ⟨_, counted, parsed⟩ := bind_eq_ok.mp parsed
  cases toUsize_eq_ok.mp counted
  obtain ⟨⟨runeCols, afterRune⟩, readRune, parsed⟩ := bind_eq_ok.mp parsed
  obtain ⟨_, counted, parsed⟩ := bind_eq_ok.mp parsed
  cases toUsize_eq_ok.mp counted
  obtain ⟨_, added, parsed⟩ := bind_eq_ok.mp parsed
  obtain ⟨rfl, _⟩ := checkedAdd_eq_some.mp (orBail_eq_ok.mp added)
  obtain ⟨_, added, parsed⟩ := bind_eq_ok.mp parsed
  obtain ⟨rfl, counted⟩ := checkedAdd_eq_some.mp (orBail_eq_ok.mp added)
  obtain ⟨_, _, parsed⟩ := bind_eq_ok.mp parsed
  obtain ⟨⟨lengths, dataStart⟩, readLengths, parsed⟩ := bind_eq_ok.mp parsed
  obtain ⟨_, summed, parsed⟩ := bind_eq_ok.mp parsed
  have sum := foldlM_checkedAdd_eq_some (orBail_eq_ok.mp summed)
  obtain ⟨_, added, parsed⟩ := bind_eq_ok.mp parsed
  obtain ⟨rfl, small⟩ := checkedAdd_eq_some.mp (orBail_eq_ok.mp added)
  obtain ⟨_, _, parsed⟩ := bind_eq_ok.mp parsed
  obtain ⟨_, ended, parsed⟩ := bind_eq_ok.mp parsed
  have whole := of_decide_eq_true (ensure_eq_ok.mp ended)
  cases parsed
  exact ⟨{ records := records, statCols := statCols, runeCols := runeCols,
           afterRecords := afterRecords, afterStat := afterStat, afterRune := afterRune,
           lengths := lengths, dataStart := dataStart, readRecords := readRecords,
           readStat := readStat, readRune := readRune, readLengths := readLengths,
           counted := by omega, whole := by omega, sized := by omega, same := rfl }⟩

/-! ## Blocks -/

/-- No slice is longer than the payload. -/
theorem slices_length_le {payload : Bytes} {lengths : List Nat} :
    ∀ {off : Nat}, ∀ column ∈ Manifest.slices payload lengths off,
      column.length ≤ payload.length := by
  induction lengths with
  | nil =>
      intro off column inside
      simp [Manifest.slices] at inside
  | cons len lengths ih =>
      intro off column inside
      rcases List.mem_cons.mp inside with rfl | later
      · simp only [List.length_take, List.length_drop]
        omega
      · exact ih column later

/-- The columns of a manifest are pieces of the payload. -/
theorem parse_columns_le {payload : Bytes} {manifest : Manifest}
    (parsed : Manifest.parse payload = .ok manifest) :
    ∀ column ∈ manifest.columns, column.length ≤ payload.length := by
  obtain ⟨facts⟩ := parse_inv parsed
  intro column inside
  rw [facts.same] at inside
  exact slices_length_le column inside

/-- Columns that pass the check are read to their ends. -/
theorem ensureFixedDone_done {readers : ColReaders} {cols : List Col}
    (done : readers.ensureFixedDone cols = .ok ()) :
    ∀ col ∈ cols, (readers.fixed col).pos = (readers.fixed col).bytes.length := by
  induction cols with
  | nil =>
      intro col inside
      simp at inside
  | cons first cols ih =>
      obtain ⟨_, here, rest⟩ := bind_eq_ok.mp done
      intro col inside
      rcases List.mem_cons.mp inside with rfl | later
      · simpa [ColReader.done] using ensure_eq_ok.mp here
      · exact ih rest col later

/-- A payload holds no more records than bytes. -/
theorem length_le_of_decodeBlock {payload : Bytes} {records : List Bytes}
    (decoded : decodeBlock payload = .ok records) : records.length ≤ payload.length := by
  obtain ⟨manifest, parsed, decoded⟩ := bind_eq_ok.mp decoded
  obtain ⟨cols, made, decoded⟩ := bind_eq_ok.mp decoded
  obtain ⟨⟨records', later⟩, run, decoded⟩ := bind_eq_ok.mp decoded
  obtain ⟨_, done, built⟩ := bind_eq_ok.mp decoded
  cases built
  obtain ⟨count, forward, moved⟩ := decodeRecords_moves run
  have whole : (later.fixed .schema).pos = (later.fixed .schema).bytes.length := by
    obtain ⟨_, fixed, _⟩ := bind_eq_ok.mp done
    exact ensureFixedDone_done fixed .schema (by decide)
  obtain ⟨_, _, built⟩ := bind_eq_ok.mp made
  cases built
  have column : (later.fixed .schema).bytes.length ≤ payload.length := by
    rw [(forward .schema).1]
    simp only [ColReader.new, List.getD_eq_getElem?_getD]
    cases found : manifest.columns[Col.all.idxOf .schema]? with
    | none => simp
    | some bytes => exact parse_columns_le parsed bytes (List.mem_of_getElem? found)
  omega

/-! ## The self-check -/

/-- Records that pass the comparison are equal. -/
theorem compareRecords_eq_ok {wants : List Bytes} :
    ∀ {gots : List Bytes} {idx : Nat}, gots.length = wants.length →
      compareRecords (wants.zip gots) idx = .ok () → gots = wants := by
  induction wants with
  | nil =>
      intro gots idx count _
      exact List.eq_nil_of_length_eq_zero count
  | cons want wants ih =>
      intro gots idx count compared
      cases gots with
      | nil => simp at count
      | cons got gots =>
          rw [List.zip_cons_cons, compareRecords] at compared
          split at compared
          · simp [bail] at compared
          · next same =>
              rw [not_not.mp same, ih (by simpa using count) compared]

/-- **The self-check.** A payload that the encoder returns reads back to its records. -/
theorem decodeBlock_of_encodeBlock {decode : Bytes → Except Error MatchRecord}
    {raws : List Bytes} {payload : Bytes} (encoded : encodeBlock decode raws = .ok payload) :
    decodeBlock payload = .ok raws := by
  obtain ⟨⟨cols, _⟩, _, encoded⟩ := bind_eq_ok.mp encoded
  obtain ⟨payload', _, encoded⟩ := bind_eq_ok.mp encoded
  obtain ⟨rebuilt, decoded, encoded⟩ := bind_eq_ok.mp encoded
  obtain ⟨_, count, encoded⟩ := bind_eq_ok.mp encoded
  obtain ⟨_, compared, built⟩ := bind_eq_ok.mp encoded
  cases built
  have same := compareRecords_eq_ok (by simpa using ensure_eq_ok.mp count) compared
  rw [context_eq_ok.mp decoded, same]

end LolCrawler.Columnar
