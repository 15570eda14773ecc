import Mathlib.Data.List.Basic
import LolCrawler.Columnar.Checked
import LolCrawler.Columnar.RoundTrip
import LolCrawler.Columnar.SelfCheck

/-! # The columnar decoder does not panic

Every step of the decoder with its panics simulates the step of the model without
them (`Matches`, `decodeRecord_simulates`): no index, slice, addition or shift is
out of range, whatever counts and lengths a payload claims. The sums that the
manifest checks cover the slices that it cuts (`Checked.parse_eq`), and the count
of its columns the vectors of cursors (`Checked.newReaders_eq`).
-/

namespace LolCrawler.Columnar

open Foundation ColReaders

/-! ## The manifest -/

/-- The loop of a varint does not panic: it runs out of rounds first. -/
theorem Checked.readVarintLoop_eq {bytes : Bytes} (name : String)
    (sized : bytes.length < usizeBound) (rounds : Nat) : ∀ (idx pos : Nat) (out : UInt64),
      rounds + idx = 10 → Checked.readVarintLoop bytes name rounds idx pos out =
        returns (Columnar.readVarintLoop bytes name rounds pos out) := by
  induction rounds with
  | zero => exact fun _ _ _ _ => rfl
  | succ rounds ih =>
      intro idx pos out count
      have last : idx = 9 ↔ rounds = 0 := by omega
      have place : 9 - rounds = idx := by omega
      rw [Checked.readVarintLoop, Columnar.readVarintLoop]
      by_cases inside : pos < bytes.length
      · have next : Checked.add pos 1 = .ok (pos + 1) := plus_eq_ok (by omega)
        have bits : ∀ byte : UInt8, shl (byte &&& 0x7f).toUInt64 (idx * 7) = .ok _ :=
          fun byte => shl_eq_ok (by omega) _
        simp only [inside, decide_true, ensure_true, index_eq_ok inside, next, bits, last, place,
          ↓reduceDIte]
        change (if rounds = 0 ∧ bytes[pos] &&& 0xfe ≠ 0 then _ else if bytes[pos] &&& 0x80 = 0 then
          _ else Checked.readVarintLoop bytes name rounds (idx + 1) (pos + 1) _) = _
        rw [ih (idx + 1) (pos + 1) _ (by omega)]
        split
        · rfl
        · split <;> rfl
      · simp only [inside, decide_false, ↓reduceDIte]
        rfl

/-- Reading a varint does not panic. -/
theorem Checked.readVarintAt_eq {bytes : Bytes} (sized : bytes.length < usizeBound) (pos : Nat)
    (name : String) :
    Checked.readVarintAt bytes pos name = returns (Columnar.readVarintAt bytes pos name) :=
  Checked.readVarintLoop_eq name sized 10 0 pos 0 rfl

/-- Reading the lengths does not panic. -/
theorem Checked.readLengths_eq {payload : Bytes} (sized : payload.length < usizeBound)
    (left : Nat) : ∀ idx pos, Checked.readLengths payload left idx pos =
      returns (Manifest.readLengths payload left idx pos) := by
  induction left with
  | zero => exact fun _ _ => rfl
  | succ left ih =>
      intro idx pos
      rw [Checked.readLengths, Manifest.readLengths, readVarintAt_eq sized]
      refine returns_bind ?_
      rintro ⟨raw, next⟩ _
      refine returns_bind fun len _ => ?_
      rw [ih]
      refine returns_bind ?_
      rintro ⟨lengths, last⟩ _
      rfl

/-- Slicing the payload does not panic if the lengths are inside. -/
theorem Checked.slices_eq {payload : Bytes} (sized : payload.length < usizeBound)
    (lengths : List Nat) : ∀ off, off + lengths.sum ≤ payload.length →
      Checked.slices payload lengths off = .ok (Manifest.slices payload lengths off) := by
  induction lengths with
  | nil => exact fun _ _ => rfl
  | cons len lengths ih =>
      intro off inside
      rw [List.sum_cons] at inside
      have next : Checked.add off len = .ok (off + len) := plus_eq_ok (by omega)
      have column : slice payload off (off + len) =
          .ok ((payload.drop off).take (off + len - off)) :=
        slice_eq_ok (Nat.le_add_right off len) (by omega)
      rw [Checked.slices, next, outcome_ok_bind, column, outcome_ok_bind,
        ih (off + len) (by omega), Nat.add_sub_cancel_left]
      rfl

/-- The manifest is parsed without a panic. -/
theorem Checked.parse_eq {payload : Bytes} (sized : payload.length < usizeBound) :
    Checked.parse payload = returns (Manifest.parse payload) := by
  have header : Checked.add magic.length 1 = .ok 5 := rfl
  rw [Checked.parse, Manifest.parse, header, outcome_ok_bind]
  refine returns_bind fun _ long => ?_
  have long : 5 ≤ payload.length := of_decide_eq_true (ensure_eq_ok.mp long)
  have start : slice payload 0 magic.length = .ok (payload.take magic.length) :=
    slice_eq_ok (Nat.zero_le _) (Nat.le_trans (by decide) long)
  rw [start, outcome_ok_bind]
  refine returns_bind fun _ _ => ?_
  have revision : index payload magic.length = .ok (payload.getD magic.length 0) := by
    rw [index_eq_ok (Nat.lt_of_lt_of_le (by decide) long), List.getD_eq_getElem?_getD,
      List.getElem?_eq_getElem]
    rfl
  rw [revision, outcome_ok_bind]
  refine returns_bind fun _ _ => ?_
  rw [outcome_ok_bind, readVarintAt_eq sized]
  refine returns_bind ?_
  rintro ⟨records, afterRecords⟩ _
  refine returns_bind fun _ _ => ?_
  rw [readVarintAt_eq sized]
  refine returns_bind ?_
  rintro ⟨statCols, afterStat⟩ _
  refine returns_bind fun _ _ => ?_
  rw [readVarintAt_eq sized]
  refine returns_bind ?_
  rintro ⟨runeCols, afterRune⟩ _
  refine returns_bind fun _ _ => ?_
  refine returns_bind fun _ _ => ?_
  refine returns_bind fun _ _ => ?_
  refine returns_bind fun _ _ => ?_
  rw [readLengths_eq sized]
  refine returns_bind ?_
  rintro ⟨lengths, dataStart⟩ _
  refine returns_bind fun dataLen summed => ?_
  refine returns_bind fun dataEnd added => ?_
  refine returns_bind fun _ within => ?_
  refine returns_bind fun _ _ => ?_
  have sum := foldlM_checkedAdd_eq_some (orBail_eq_ok.mp summed)
  have total := (checkedAdd_eq_some.mp (orBail_eq_ok.mp added)).1
  have within := of_decide_eq_true (ensure_eq_ok.mp within)
  rw [slices_eq sized lengths dataStart (by omega)]
  rfl

/-! ## Cursors -/

/-- The cursors in vectors are those of the model, over slices. -/
structure Matches (cols : Checked.ColReaders) (readers : ColReaders) : Prop where
  fixed : cols.fixed = Col.all.map readers.fixed
  stat : cols.stat = readers.stat
  rune : cols.rune = readers.rune
  fixedSized : ∀ col, (readers.fixed col).bytes.length < usizeBound
  statSized : ∀ reader ∈ readers.stat, reader.bytes.length < usizeBound
  runeSized : ∀ reader ∈ readers.rune, reader.bytes.length < usizeBound

/-- The varint of a cursor does not panic. -/
theorem Checked.varint_eq {reader : ColReader} (sized : reader.bytes.length < usizeBound)
    (name : String) : Checked.varint reader name = returns (reader.varint name) := by
  rw [Checked.varint, ColReader.varint, readVarintAt_eq sized]
  refine returns_bind ?_
  rintro ⟨value, pos⟩ _
  rfl

/-- Taking bytes does not panic. -/
theorem Checked.take_eq (reader : ColReader) (len : Nat) (name : String) :
    Checked.take reader len name = returns (reader.take len name) := by
  rw [Checked.take, ColReader.take]
  refine returns_bind fun last added => ?_
  refine returns_bind fun _ within => ?_
  obtain ⟨rfl, _⟩ := checkedAdd_eq_some.mp (orBail_eq_ok.mp added)
  have within := of_decide_eq_true (ensure_eq_ok.mp within)
  rw [slice_eq_ok (Nat.le_add_right ..) within, Nat.add_sub_cancel_left]
  rfl

/-- Every fixed column has a cursor. -/
theorem Checked.place_lt (col : Col) : Checked.place col < Col.all.length :=
  List.idxOf_lt_length_of_mem (Col.mem_all col)

/-- The constant of a column finds its cursor and its name. -/
theorem Matches.index {cols : Checked.ColReaders} {readers : ColReaders}
    (held : Matches cols readers) (col : Col) :
    index cols.fixed (Checked.place col) = .ok (readers.fixed col) ∧
      index Checked.fixedNames (Checked.place col) = .ok col.name := by
  have inside := Checked.place_lt col
  have own : Col.all[Checked.place col] = col := List.getElem_idxOf inside
  rw [held.fixed, Checked.fixedNames, index_eq_ok (by rwa [List.length_map]),
    index_eq_ok (by rwa [List.length_map]), List.getElem_map, List.getElem_map, own]
  exact ⟨rfl, rfl⟩

/-- No fixed column is listed twice. -/
theorem all_nodup : Col.all.Nodup := by decide

/-- Replacing the cursor of a fixed column. -/
theorem Matches.setFixed {cols : Checked.ColReaders} {readers : ColReaders}
    (held : Matches cols readers) (col : Col) {reader : ColReader}
    (sized : reader.bytes.length < usizeBound) :
    Matches { cols with fixed := cols.fixed.set (Checked.place col) reader }
      { readers with fixed := Function.update readers.fixed col reader } where
  fixed := by
    have inside := Checked.place_lt col
    have own : Col.all[Checked.place col] = col := List.getElem_idxOf inside
    change cols.fixed.set _ _ = Col.all.map (Function.update readers.fixed col reader)
    rw [held.fixed]
    apply List.ext_getElem
    · rw [List.length_set, List.length_map, List.length_map]
    · intro i _ within
      rw [List.length_map] at within
      rw [List.getElem_set, List.getElem_map, List.getElem_map]
      by_cases same : Checked.place col = i
      · subst same
        rw [if_pos rfl, own, Function.update_self]
      · have apart : Col.all[i] ≠ col := by
          rintro rfl
          exact same (List.Nodup.idxOf_getElem all_nodup i within)
        rw [if_neg same, Function.update_of_ne apart]
  stat := held.stat
  rune := held.rune
  fixedSized := by
    intro other
    by_cases same : other = col
    · subst same
      simpa only [Function.update_self] using sized
    · simpa only [Function.update_of_ne same] using held.fixedSized other
  statSized := held.statSized
  runeSized := held.runeSized

/-- Replacing the cursor of a stat column. -/
theorem Matches.setStat {cols : Checked.ColReaders} {readers : ColReaders}
    (held : Matches cols readers) (idx : Nat) {reader : ColReader}
    (sized : reader.bytes.length < usizeBound) :
    Matches { cols with stat := cols.stat.set idx reader }
      { readers with stat := readers.stat.set idx reader } where
  fixed := held.fixed
  stat := congrArg (List.set · idx _) held.stat
  rune := held.rune
  fixedSized := held.fixedSized
  statSized := by
    intro other member
    rcases List.mem_or_eq_of_mem_set member with old | rfl
    · exact held.statSized other old
    · exact sized
  runeSized := held.runeSized

/-- Replacing the cursor of a rune column. -/
theorem Matches.setRune {cols : Checked.ColReaders} {readers : ColReaders}
    (held : Matches cols readers) (idx : Nat) {reader : ColReader}
    (sized : reader.bytes.length < usizeBound) :
    Matches { cols with rune := cols.rune.set idx reader }
      { readers with rune := readers.rune.set idx reader } where
  fixed := held.fixed
  stat := held.stat
  rune := congrArg (List.set · idx _) held.rune
  fixedSized := held.fixedSized
  statSized := held.statSized
  runeSized := by
    intro other member
    rcases List.mem_or_eq_of_mem_set member with old | rfl
    · exact held.runeSized other old
    · exact sized

/-! ## Scalars -/

/-- A varint cell does not panic, and is that of the model. -/
theorem rv_simulates (col : Col) : Simulates Matches (Checked.rv col) (rv col) Eq := by
  intro cols readers held
  obtain ⟨cursor, name⟩ := held.index col
  unfold Checked.rv rv
  rw [cursor, name, outcome_ok_bind, outcome_ok_bind, Checked.varint_eq (held.fixedSized col),
    ColReader.varint]
  cases readVarintAt (readers.fixed col).bytes (readers.fixed col).pos col.name with
  | error messages => exact .error
  | ok result => exact .ok (held.setFixed col (held.fixedSized col)) rfl

/-- A cell of bytes does not panic, and is that of the model. -/
theorem rbytes_simulates (col : Col) (len : Nat) :
    Simulates Matches (Checked.rbytes col len) (rbytes col len) Eq := by
  intro cols readers held
  obtain ⟨cursor, name⟩ := held.index col
  unfold Checked.rbytes rbytes
  rw [cursor, name, outcome_ok_bind, outcome_ok_bind, Checked.take_eq, ColReader.take]
  cases orBail s!"byte length overflow in {col.name}" (checkedAdd (readers.fixed col).pos len) with
  | error messages => exact .error
  | ok last =>
      simp only [ok_bind]
      cases ensure (last ≤ (readers.fixed col).bytes.length) s!"truncated bytes in {col.name}" with
      | error messages => exact .error
      | ok _ => exact .ok (held.setFixed col (held.fixedSized col)) rfl

/-- A zigzag cell does not panic, and is that of the model. -/
theorem rz_simulates (col : Col) : Simulates Matches (Checked.rz col) (rz col) Eq :=
  (rv_simulates col).bind fun _ _ same => .pure (congrArg unzigzagI64 same)

/-- A `u32` cell does not panic, and is that of the model. -/
theorem rv32_simulates (col : Col) (name : String) :
    Simulates Matches (Checked.rv32 col name) (rv32 col name) Eq :=
  (rv_simulates col).bind fun value _ same => same ▸ .lift (readU32 value name)

/-- The length of a vector does not panic, and is that of the model. -/
theorem rvLen_simulates (col : Col) (name : String) :
    Simulates Matches (Checked.rvLen col name) (rvLen col name) Eq :=
  (rv_simulates col).bind fun value _ same => same ▸ .lift (toUsize value name)

/-- A cell of a stat column does not panic, and is that of the model. -/
theorem statZ_simulates (idx : Nat) : Simulates Matches (Checked.statZ idx) (statZ idx) Eq := by
  intro cols readers held
  unfold Checked.statZ statZ
  have found : cols.stat[idx]? = readers.stat[idx]? :=
    congrArg (fun columns => columns[idx]?) held.stat
  rw [found]
  cases there : readers.stat[idx]? with
  | none => exact .error
  | some reader =>
      have sized := held.statSized reader (List.mem_of_getElem? there)
      change Agrees Matches Eq ((Checked.varint reader "stat").bind _)
        ((reader.varint "stat").bind _)
      rw [Checked.varint_eq sized, ColReader.varint]
      cases readVarintAt reader.bytes reader.pos "stat" with
      | error messages => exact .error
      | ok result => exact .ok (held.setStat idx sized) rfl

/-- A cell of a rune column does not panic, and is that of the model. -/
theorem runeV_simulates (idx : Nat) : Simulates Matches (Checked.runeV idx) (runeV idx) Eq := by
  intro cols readers held
  unfold Checked.runeV runeV
  have found : cols.rune[idx]? = readers.rune[idx]? :=
    congrArg (fun columns => columns[idx]?) held.rune
  rw [found]
  cases there : readers.rune[idx]? with
  | none => exact .error
  | some reader =>
      have sized := held.runeSized reader (List.mem_of_getElem? there)
      change Agrees Matches Eq ((Checked.varint reader "rune").bind _)
        ((reader.varint "rune").bind _)
      rw [Checked.varint_eq sized, ColReader.varint]
      cases readVarintAt reader.bytes reader.pos "rune" with
      | error messages => exact .error
      | ok result => exact .ok (held.setRune idx sized) rfl

/-! ## Records -/

/-- A loop does not panic if its rounds do not, and emits what they emit. -/
theorem decodeLoop_simulates {α : Type} {checked : Nat → Checked.Read α} {model : Nat → Read Bytes}
    {emit : α → Bytes}
    (round : ∀ idx, Simulates Matches (checked idx) (model idx) fun item bytes => bytes = emit item)
    (left : Nat) : ∀ idx, Simulates Matches (Checked.decodeLoop checked left idx)
      (decodeLoop model left idx) fun items bytes => bytes = items.flatMap emit := by
  induction left with
  | zero => exact fun _ => .pure rfl
  | succ left ih =>
      intro idx
      apply (round idx).shaped
      intro item
      apply (ih (idx + 1)).shaped
      intro rest
      exact .pure rfl

/-- A rune is that of the model, encoded. -/
theorem decodeRune_simulates (idx : Nat) :
    Simulates Matches (Checked.decodeRune idx) (decodeRune idx)
      fun rune bytes => bytes = writeVarint rune.toUInt64 := by
  apply (runeV_simulates idx).step
  intro value
  exact (Simulates.lift (readU32 value "rune")).map fun rune => writeVarint rune.toUInt64

/-- A stat is that of the model, encoded. -/
theorem decodeStat_simulates (idx : Nat) :
    Simulates Matches (Checked.statZ idx) (decodeStat idx)
      fun stat bytes => bytes = writeVarint (zigzagI64 stat) :=
  (statZ_simulates idx).map fun stat => writeVarint (zigzagI64 stat)

/-- A ban is that of the model, encoded. -/
theorem decodeBan_simulates (idx : Nat) :
    Simulates Matches (Checked.decodeBan idx) (decodeBan idx)
      fun ban bytes => bytes = writeVarint ban.toUInt64 :=
  (rv32_simulates .bans "ban").map fun ban : UInt32 => writeVarint ban.toUInt64

/-- A participant is that of the model, encoded. -/
theorem decodeParticipant_simulates (idx : Nat) :
    Simulates Matches (Checked.decodeParticipant idx) (decodeParticipant idx)
      fun participant bytes => bytes = Proto.lengthDelimited 11 participant.encodeToVec := by
  unfold Checked.decodeParticipant decodeParticipant
  simp only [participantFields, decodeFields, bind_assoc, pure_bind]
  apply (rv32_simulates _ _).step
  intro playerId
  apply (rv32_simulates _ _).step
  intro championId
  apply (rv32_simulates _ _).step
  intro position
  apply (rv32_simulates _ _).step
  intro spell1
  apply (rv32_simulates _ _).step
  intro spell2
  apply (rvLen_simulates _ _).step
  intro nRunes
  apply (decodeLoop_simulates decodeRune_simulates _ _).shaped
  intro runes
  apply (rvLen_simulates _ _).step
  intro nStats
  apply (decodeLoop_simulates decodeStat_simulates _ _).shaped
  intro stats
  apply Simulates.pure
  simp only [Participant.encodeToVec, List.append_nil, List.append_assoc, putFieldMessage_eq,
    putFieldVarint_eq, putFieldPackedBody, putFieldBytes_eq, writeVarint_eq, zigzagI64_eq,
    Proto.packedUint32, Proto.packedSint64, Proto.uint32Field]
  rfl

/-- The values of a series are those of the model. -/
theorem decodeValues_simulates (vCol : Col) (name : String) {prevSeries : List (List UInt32)}
    {idx : Nat} (inside : idx < prevSeries.length) (left : Nat) :
    ∀ slot, Simulates Matches (Checked.decodeValues vCol name prevSeries idx left slot)
      (decodeValues vCol name prevSeries[idx] left slot) Eq := by
  induction left with
  | zero => exact fun _ => .pure rfl
  | succ left ih =>
      intro slot
      apply Simulates.lift_ok (index_eq_ok inside)
      apply (rz_simulates vCol).step
      intro delta
      apply (Simulates.lift _).step
      intro value
      apply (ih (slot + 1)).step
      intro rest
      exact .pure rfl

/-- The series loop overwrites the entries of `prev_series` one after the other. -/
theorem decodeSeriesAll_simulates (specs : List (UInt32 × Col × Col × String)) :
    ∀ read prev : List (List UInt32), specs.length = prev.length →
      Simulates Matches (Checked.decodeSeriesAll specs read.length (read ++ prev))
        (decodeSeriesAll specs prev) fun series result => ∃ next, series = read ++ next ∧
          next.length = specs.length ∧ result = (emitSeries specs next, next) := by
  induction specs with
  | nil =>
      intro read prev same
      cases List.eq_nil_of_length_eq_zero same.symm
      exact .pure ⟨[], rfl, rfl, rfl⟩
  | cons spec specs ih =>
      obtain ⟨field, nCol, vCol, name⟩ := spec
      intro read prev same
      cases prev with
      | nil => cases same
      | cons first prev =>
          have inside : read.length < (read ++ first :: prev).length := by
            rw [List.length_append, List.length_cons]
            omega
          have own : (read ++ first :: prev)[read.length] = first := by
            rw [List.getElem_append_right (Nat.le_refl _)]
            simp only [Nat.sub_self, List.getElem_cons_zero]
          apply (rvLen_simulates nCol name).step
          intro count
          have values := decodeValues_simulates vCol name inside count 0
          rw [own] at values
          apply values.step
          intro values
          apply Simulates.lift_ok (store_eq_ok inside values)
          have stored : (read ++ first :: prev).set read.length values =
              (read ++ [values]) ++ prev := by
            rw [List.set_append_right _ _ (Nat.le_refl _), Nat.sub_self, List.set_cons_zero,
              List.append_assoc]
            rfl
          have rest := ih (read ++ [values]) prev (Nat.succ.inj same)
          rw [List.length_append, List.length_singleton] at rest
          rw [stored, ← bind_pure (Checked.decodeSeriesAll _ _ _)]
          apply rest.bind
          rintro series _ ⟨next, rfl, length, rfl⟩
          exact .pure ⟨values :: next, List.append_assoc .., congrArg (· + 1) length, rfl⟩

/-- The frames are those of the model, encoded. -/
theorem decodeFrames_simulates (left : Nat) : ∀ prev : List (List UInt32), prev.length = 4 →
    Simulates Matches (Checked.decodeFrames left prev) (decodeFrames left prev)
      fun frames bytes =>
        bytes = frames.flatMap fun frame => Proto.lengthDelimited 1 frame.encodeToVec := by
  induction left with
  | zero => exact fun _ _ => .pure rfl
  | succ left ih =>
      intro prev four
      apply (rv32_simulates .fMinute "minute").step
      intro minute
      apply (decodeSeriesAll_simulates frameSeries [] prev four.symm).bind
      rintro series _ ⟨next, rfl, length, rfl⟩
      apply (ih series length).shaped
      intro rest
      apply Simulates.pure
      obtain ⟨gold, others, rfl⟩ := List.exists_cons_of_length_eq_add_one length
      obtain ⟨xp, cs, damage, rfl⟩ := List.length_eq_three.mp (Nat.succ.inj length)
      rw [List.flatMap_cons]
      congr 1
      simp only [Checked.frameOf, MinuteFrame.encodeToVec, emitSeries, frameSeries,
        List.zip_cons_cons, List.zip_nil_left, List.flatMap_cons, List.flatMap_nil,
        List.append_nil, List.append_assoc, putFieldMessage_eq, putFieldVarint_eq,
        putFieldPackedBody, putFieldBytes_eq, writeVarint_eq, Proto.packedUint32,
        Proto.uint32Field]
      rfl

section Events

variable {Event : Type} {others : UInt32 → Checked.Read Event}
  {fields : List (UInt32 × Col × String)} {field : UInt32} {encode : Event → Bytes}

/-- Events of one kind are those of the model, encoded. -/
theorem decodeEvents_simulates (tCol : Col) (tName : String)
    (event : ∀ t, Simulates Matches (others t) (decodeFields fields) fun event bytes =>
      putFieldMessage field (putFieldVarint 1 t.toUInt64 ++ bytes) =
        Proto.lengthDelimited field.toUInt64 (encode event)) (left : Nat) :
    ∀ prevT, Simulates Matches (Checked.decodeEvents tCol tName others left prevT)
      (decodeEvents field tCol tName fields left prevT) fun events bytes =>
        bytes = events.flatMap fun event =>
          Proto.lengthDelimited field.toUInt64 (encode event) := by
  induction left with
  | zero => exact fun _ => .pure rfl
  | succ left ih =>
      intro prevT
      apply (rz_simulates tCol).step
      intro delta
      apply (Simulates.lift _).step
      intro t
      apply (event t).bind
      intro event bytes emitted
      apply (ih t).shaped
      intro rest
      apply Simulates.pure
      rw [emitted, List.flatMap_cons]

end Events

/-- A kill is that of the model, encoded. -/
theorem decodeKill_simulates (t : UInt32) :
    Simulates Matches (Checked.decodeKill t) (decodeFields killFields) fun kill bytes =>
      putFieldMessage 2 (putFieldVarint 1 t.toUInt64 ++ bytes) =
        Proto.lengthDelimited 2 kill.encodeToVec := by
  unfold Checked.decodeKill
  simp only [killFields, decodeFields, bind_assoc, pure_bind]
  apply (rv32_simulates _ _).step
  intro killer
  apply (rv32_simulates _ _).step
  intro victim
  apply (rv32_simulates _ _).step
  intro assistMask
  apply (rv32_simulates _ _).step
  intro x
  apply (rv32_simulates _ _).step
  intro y
  apply Simulates.pure
  simp only [KillEvent.encodeToVec, List.append_nil, List.append_assoc, putFieldMessage_eq,
    putFieldVarint_eq, Proto.uint32Field]
  rfl

/-- An objective is that of the model, encoded. -/
theorem decodeObjective_simulates (t : UInt32) :
    Simulates Matches (Checked.decodeObjective t) (decodeFields objectiveFields)
      fun objective bytes => putFieldMessage 3 (putFieldVarint 1 t.toUInt64 ++ bytes) =
        Proto.lengthDelimited 3 objective.encodeToVec := by
  unfold Checked.decodeObjective
  simp only [objectiveFields, decodeFields, bind_assoc, pure_bind]
  apply (rv32_simulates _ _).step
  intro kind
  apply (rv32_simulates _ _).step
  intro killer
  apply (rv32_simulates _ _).step
  intro team
  apply (rv32_simulates _ _).step
  intro lane
  apply Simulates.pure
  simp only [ObjectiveEvent.encodeToVec, List.append_nil, List.append_assoc, putFieldMessage_eq,
    putFieldVarint_eq, Proto.uint32Field]
  rfl

/-- A ward is that of the model, encoded. -/
theorem decodeWard_simulates (t : UInt32) :
    Simulates Matches (Checked.decodeWard t) (decodeFields wardFields) fun ward bytes =>
      putFieldMessage 4 (putFieldVarint 1 t.toUInt64 ++ bytes) =
        Proto.lengthDelimited 4 ward.encodeToVec := by
  unfold Checked.decodeWard
  simp only [wardFields, decodeFields, bind_assoc, pure_bind]
  apply (rv32_simulates _ _).step
  intro kind
  apply (rv32_simulates _ _).step
  intro participant
  apply Simulates.pure
  simp only [WardEvent.encodeToVec, List.append_nil, List.append_assoc, putFieldMessage_eq,
    putFieldVarint_eq, Proto.uint32Field]
  rfl

/-- A timeline is that of the model, encoded. -/
theorem decodeTimeline_simulates :
    Simulates Matches Checked.decodeTimeline decodeTimeline
      fun timeline bytes => bytes = timeline.encodeToVec := by
  apply (rvLen_simulates .nframes _).step
  intro nFrames
  apply (decodeFrames_simulates nFrames _ rfl).shaped
  intro frames
  apply (rvLen_simulates .nkills _).step
  intro nKills
  apply (decodeEvents_simulates .kT _ decodeKill_simulates nKills 0).shaped
  intro kills
  apply (rvLen_simulates .nobjs _).step
  intro nObjs
  apply (decodeEvents_simulates .oT _ decodeObjective_simulates nObjs 0).shaped
  intro objectives
  apply (rvLen_simulates .nwards _).step
  intro nWards
  apply (decodeEvents_simulates .wT _ decodeWard_simulates nWards 0).shaped
  intro wards
  exact .pure rfl

/-- A timeline that may be absent is that of the model, encoded. -/
theorem decodePresent_simulates (tlPresent : UInt64) :
    Simulates Matches (Checked.decodePresent tlPresent) (decodePresent tlPresent)
      fun timeline bytes =>
        bytes = timeline.elim [] fun present => Proto.lengthDelimited 12 present.encodeToVec := by
  unfold Checked.decodePresent decodePresent
  split
  · apply decodeTimeline_simulates.shaped
    intro timeline
    exact .pure (putFieldMessage_eq 12 _)
  · exact .pure rfl

/-- A flag is zero or one. -/
theorem flag_cases {flag : UInt64} (small : flag ≤ 1) : flag = 0 ∨ flag = 1 := by
  have small : flag.toNat ≤ 1 := UInt64.le_iff_toNat_le.mp small
  rcases Nat.le_one_iff_eq_zero_or_eq_one.mp small with none | one
  · exact .inl (UInt64.toNat_inj.mp none)
  · exact .inr (UInt64.toNat_inj.mp one)

/-- A flag is encoded as a boolean. -/
theorem blue_won_field {blueWon : UInt64} (flag : blueWon ≤ 1) :
    putFieldVarint 7 blueWon = Proto.boolField 7 (blueWon = 1) := by
  rcases flag_cases flag with rfl | rfl <;> rfl

/-- A record is read without a panic, and written out as its canonical bytes. -/
theorem decodeRecord_simulates (state : BlockState) :
    Simulates Matches (Checked.decodeRecord state) (decodeRecord state)
      fun read written => written = (read.1.encodeToVec, read.2) := by
  apply (rv32_simulates .schema _).step
  intro schema
  apply (rz_simulates .gidD).step
  intro gidD
  apply (Simulates.lift _).step
  intro gameId
  apply (rvLen_simulates .platLen _).step
  intro platformLen
  apply (rbytes_simulates .plat platformLen).step
  intro platform
  apply (rv32_simulates .queue _).step
  intro queueId
  apply (rz_simulates .startD).step
  intro startD
  apply (Simulates.lift _).step
  intro gameStartMs
  apply (rv32_simulates .dur _).step
  intro durationS
  apply (rv_simulates .blue).step
  intro blueWon
  apply (Simulates.check _ _).bind
  intro _ _ flag
  apply (rvLen_simulates .gvLen _).step
  intro gameVersionLen
  apply (rbytes_simulates .gv gameVersionLen).step
  intro gameVersion
  apply (rv32_simulates .pmaj _).step
  intro patchMajor
  apply (rv32_simulates .pmin _).step
  intro patchMinor
  apply (rvLen_simulates .nparts _).step
  intro nParts
  apply (decodeLoop_simulates decodeParticipant_simulates nParts 0).shaped
  intro participants
  apply (rv_simulates .tlPresent).step
  intro tlPresent
  apply (Simulates.check _ _).bind
  intro _ _ _
  apply (decodePresent_simulates tlPresent).shaped
  intro timeline
  apply (rvLen_simulates .bansN _).step
  intro nBans
  apply (decodeLoop_simulates decodeBan_simulates nBans 0).shaped
  intro bans
  apply Simulates.pure
  simp only [Contents.encodeToVec, putFieldVarint_eq, putFieldInt64_eq, putFieldPackedBody,
    putFieldBytes_eq, writeVarint_eq, Proto.packedUint32, Proto.uint32Field,
    ← blue_won_field (of_decide_eq_true flag)]
  rfl

/-- The records of a block are those of the model, encoded. -/
theorem decodeRecords_simulates (left : Nat) : ∀ idx state,
    Simulates Matches (Checked.decodeRecords left idx state) (decodeRecords left idx state)
      fun records written => written = records.map Contents.encodeToVec := by
  induction left with
  | zero => exact fun _ _ => .pure rfl
  | succ left ih =>
      intro idx state
      apply ((decodeRecord_simulates state).inContext _).bind
      rintro ⟨record, after⟩ _ rfl
      apply (ih (idx + 1) after).shaped
      intro rest
      exact .pure rfl

/-! ## Blocks -/

/-- There are as many lengths as were asked for. -/
theorem readLengths_length {payload : Bytes} {left : Nat} : ∀ {idx pos : Nat}
    {lengths : List Nat} {next : Nat},
      Manifest.readLengths payload left idx pos = .ok (lengths, next) → lengths.length = left := by
  induction left with
  | zero =>
      intro idx pos lengths next read
      cases read
      rfl
  | succ left ih =>
      intro idx pos lengths next read
      obtain ⟨⟨raw, mid⟩, _, read⟩ := bind_eq_ok.mp read
      obtain ⟨len, _, read⟩ := bind_eq_ok.mp read
      obtain ⟨⟨others, last⟩, rest, built⟩ := bind_eq_ok.mp read
      cases built
      rw [List.length_cons, ih rest]

/-- There are as many slices as lengths. -/
theorem slices_length (payload : Bytes) (lengths : List Nat) :
    ∀ off, (Manifest.slices payload lengths off).length = lengths.length := by
  induction lengths with
  | nil => exact fun _ => rfl
  | cons len lengths ih => exact fun off => congrArg (· + 1) (ih (off + len))

/-- The sum checks of the manifest cover its columns. -/
theorem Parsed.columns_length {payload : Bytes} {manifest : Manifest}
    (parsed : Parsed payload manifest) :
    manifest.columns.length = nmisc + manifest.statCols + manifest.runeCols := by
  rw [parsed.same]
  change (Manifest.slices payload parsed.lengths parsed.dataStart).length = _
  rw [slices_length, readLengths_length parsed.readLengths, Nat.add_assoc]

/-- The columns of a parsed payload can be counted. -/
theorem Parsed.columns_small {payload : Bytes} {manifest : Manifest}
    (parsed : Parsed payload manifest) : manifest.columns.length < usizeBound := by
  rw [parsed.columns_length, parsed.same]
  exact parsed.counted

/-- The cursors at the start of every column. -/
def Checked.start (columns : List Bytes) (statCols : Nat) : Checked.ColReaders where
  fixed := (columns.take nmisc).map .new
  stat := ((columns.drop nmisc).take statCols).map .new
  rune := (columns.drop (nmisc + statCols)).map .new

/-- The vectors of cursors are cut from the columns without a panic. -/
theorem Checked.newReaders_eq {columns : List Bytes} {statCols runeCols : Nat}
    (count : columns.length = nmisc + statCols + runeCols)
    (small : columns.length < usizeBound) :
    Checked.newReaders columns statCols runeCols = .ok (Checked.start columns statCols) := by
  have dynamicStart : Checked.add nmisc statCols = .ok (nmisc + statCols) :=
    plus_eq_ok (by omega)
  have total : Checked.add (nmisc + statCols) runeCols = .ok columns.length := by
    rw [count]
    exact plus_eq_ok (by omega)
  have fixed : slice columns 0 nmisc = .ok (columns.take nmisc) :=
    slice_eq_ok (Nat.zero_le _) (by omega)
  have stat : slice columns nmisc (nmisc + statCols) =
      .ok ((columns.drop nmisc).take statCols) := by
    rw [slice_eq_ok (Nat.le_add_right ..) (by omega), Nat.add_sub_cancel_left]
  have rune : slice columns (nmisc + statCols) columns.length =
      .ok (columns.drop (nmisc + statCols)) := by
    rw [slice_eq_ok (by omega) (Nat.le_refl _), ← List.length_drop, List.take_length]
  simp only [Checked.newReaders, dynamicStart, total, fixed, stat, rune, outcome_ok_bind,
    decide_true]
  rfl

/-- The cursors start as those of the model. -/
theorem start_matches {columns : List Bytes} {statCols runeCols : Nat}
    (count : columns.length = nmisc + statCols + runeCols)
    (sized : ∀ column ∈ columns, column.length < usizeBound) :
    ∃ readers, ColReaders.new columns statCols runeCols = .ok readers ∧
      Matches (Checked.start columns statCols) readers := by
  refine ⟨{ fixed := fun col => .new (columns.getD (Col.all.idxOf col) [])
            stat := ((columns.drop nmisc).take statCols).map .new
            rune := (columns.drop (nmisc + statCols)).map .new }, ?_,
    { fixed := ?_, stat := rfl, rune := rfl, fixedSized := ?_, statSized := ?_, runeSized := ?_ }⟩
  · rw [ColReaders.new, decide_eq_true count]
    rfl
  · apply List.ext_getElem
    · rw [Checked.start, List.length_map, List.length_map, List.length_take_of_le (by omega)]
      rfl
    · intro i first second
      rw [List.length_map] at second
      have inside : i < columns.length := by
        have fifty : Col.all.length = nmisc := rfl
        omega
      have own : Col.all.idxOf Col.all[i] = i := List.Nodup.idxOf_getElem all_nodup i second
      simp only [Checked.start, List.getElem_map, List.getElem_take]
      change ColReader.new _ = ColReader.new (columns.getD (Col.all.idxOf Col.all[i]) [])
      rw [own, List.getD_eq_getElem?_getD, List.getElem?_eq_getElem inside]
      rfl
  · intro col
    change (columns.getD (Col.all.idxOf col) []).length < usizeBound
    have inside : Col.all.idxOf col < columns.length := by
      have fifty := Checked.place_lt col
      change Col.all.idxOf col < nmisc at fifty
      omega
    rw [List.getD_eq_getElem?_getD, List.getElem?_eq_getElem inside]
    exact sized _ (List.getElem_mem inside)
  · intro reader member
    obtain ⟨column, own, rfl⟩ := List.mem_map.mp member
    exact sized column (List.mem_of_mem_drop (List.mem_of_mem_take own))
  · intro reader member
    obtain ⟨column, own, rfl⟩ := List.mem_map.mp member
    exact sized column (List.mem_of_mem_drop own)

/-- The check of the fixed columns finds the name of the column it reports. -/
theorem ensureFixedDone_eq (readers : ColReaders) (cols : List Col) :
    ∀ idx, Col.all.drop idx = cols →
      Checked.ensureFixedDone (cols.map readers.fixed) idx =
        returns (readers.ensureFixedDone cols) := by
  induction cols with
  | nil => exact fun _ _ => rfl
  | cons col cols ih =>
      intro idx left
      obtain ⟨inside, own, rest⟩ := of_drop_eq_cons left
      have name : index Checked.fixedNames idx = .ok col.name := by
        rw [Checked.fixedNames, index_eq_ok (by rwa [List.length_map]), List.getElem_map, own]
      rw [List.map_cons, Checked.ensureFixedDone, ColReaders.ensureFixedDone, name,
        ih (idx + 1) rest]
      cases (readers.fixed col).done <;> rfl

/-- The check that all columns are used up does not panic. -/
theorem Matches.ensureDone {cols : Checked.ColReaders} {readers : ColReaders}
    (held : Matches cols readers) : Checked.ensureDone cols = returns readers.ensureDone := by
  rw [Checked.ensureDone, ColReaders.ensureDone, held.fixed, held.stat, held.rune,
    ensureFixedDone_eq readers Col.all 0 rfl]
  refine returns_bind fun _ _ => ?_
  refine returns_bind fun _ _ => ?_
  rfl

/-- **The decoder does not panic.** It gives what the model of it without panics
gives, with the contents of every record in place of its bytes. -/
theorem decodeBlock_checked {payload : Bytes} (sized : payload.length < usizeBound) :
    (Checked.decodeBlock payload).map (List.map Contents.encodeToVec) =
      returns (decodeBlock payload) := by
  unfold Checked.decodeBlock decodeBlock
  rw [Checked.parse_eq sized]
  cases parsed : Manifest.parse payload with
  | error messages => rfl
  | ok manifest =>
      obtain ⟨facts⟩ := parse_inv parsed
      have inside := parse_columns_le parsed
      have opened := Checked.newReaders_eq facts.columns_length facts.columns_small
      obtain ⟨readers, made, held⟩ := start_matches facts.columns_length
        fun column member => Nat.lt_of_le_of_lt (inside column member) sized
      simp only [returns_ok, outcome_ok_bind, ok_bind, opened, made]
      have agreed := decodeRecords_simulates manifest.records 0 {} _ readers held
      generalize Checked.decodeRecords manifest.records 0 {} _ = run,
        decodeRecords manifest.records 0 {} readers = modelRun at agreed ⊢
      cases agreed with
      | error => rfl
      | ok held shown =>
          subst shown
          simp only [outcome_ok_bind, ok_bind, held.ensureDone]
          cases ColReaders.ensureDone _ <;> rfl

end LolCrawler.Columnar
