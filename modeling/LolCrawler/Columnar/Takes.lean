import Mathlib.Algebra.Order.Group.Nat
import Mathlib.Algebra.Order.Monoid.Prod
import Mathlib.Algebra.Order.Pi
import Mathlib.Algebra.BigOperators.Group.List.Basic
import LolCrawler.Columnar.Total
import LolCrawler.Foundation.Costs

/-! # What the columnar decoder takes

A read takes from its column at least what the encoder writes for its value:
varints that read alike are no shorter than the one written
(`writeVarint_length_le`), and a delta that was added is the delta of the sum. So
a block takes from every column the part of its contents, and a byte for each of
their elements (`decodeBlock_takes`); no count a payload claims can make the decoder
produce more elements than the payload has bytes (`decodeBlock_total`).
-/

namespace LolCrawler.Columnar

open Foundation

/-! ## Minimal varints -/

/-- A small value has a short varint. -/
theorem writeVarintLoop_length_le (rounds : Nat) : ∀ (value : UInt64) (count : Nat),
    value.toNat < 128 ^ (count + 1) → (writeVarintLoop rounds value).length ≤ count + 1 := by
  induction rounds with
  | zero => exact fun _ _ _ => Nat.zero_le _
  | succ rounds ih =>
      intro value count small
      rw [writeVarintLoop]
      split
      · exact Nat.le_add_left 1 count
      · next more =>
          cases count with
          | zero =>
              have none : value >>> 7 = 0 := by
                apply UInt64.toNat_inj.mp
                rw [shift_toNat]
                exact Nat.div_eq_of_lt (by simpa using small)
              exact absurd none more
          | succ count =>
              rw [List.length_cons]
              apply Nat.succ_le_succ
              apply ih
              rw [shift_toNat]
              apply Nat.div_lt_of_lt_mul
              rwa [← Nat.pow_succ']

/-- The byte of the last round is one bit. -/
theorem last_byte_small : ∀ byte : Fin 256, UInt8.ofNat byte &&& 0xfe = 0 → byte < 2 := by
  decide +kernel

/-- The digit of every round fits its place. -/
theorem digit_fits {byte : UInt8} {rounds idx : Nat} (total : rounds + 1 + idx = 10)
    (fine : ¬ (rounds = 0 ∧ byte &&& 0xfe ≠ 0)) :
    (byte &&& 0x7f).toNat < 128 ∧ (byte &&& 0x7f).toNat * 128 ^ idx < 2 ^ 64 := by
  have digit : (byte &&& 0x7f).toNat < 128 := by
    rw [UInt8.toNat_and]
    exact Nat.lt_of_le_of_lt Nat.and_le_right (by decide)
  refine ⟨digit, ?_⟩
  by_cases last : rounds = 0
  · have bit : byte.toNat < 2 := by
      have none := last_byte_small ⟨byte.toNat, byte.toNat_lt⟩
      rw [UInt8.ofNat_toNat] at none
      exact none (not_not.mp fun high => fine ⟨last, high⟩)
    have small : (byte &&& 0x7f).toNat ≤ byte.toNat := by
      rw [UInt8.toNat_and]
      exact Nat.and_le_left
    obtain rfl : idx = 9 := by omega
    omega
  · calc (byte &&& 0x7f).toNat * 128 ^ idx ≤ 128 * 128 ^ 8 :=
          Nat.mul_le_mul (Nat.le_of_lt digit) (Nat.pow_le_pow_right (by decide) (by omega))
      _ < 2 ^ 64 := by decide

/-- A value read in so many rounds has no more digits. -/
theorem readVarintLoop_small {bytes : Bytes} {name : String} {value : UInt64} {next : Nat}
    (rounds : Nat) : ∀ {idx pos : Nat} {out : UInt64}, rounds + idx = 10 →
      out.toNat < 128 ^ idx → readVarintLoop bytes name rounds pos out = .ok (value, next) →
        ∃ count, next = pos + count + 1 ∧ value.toNat < 128 ^ (idx + count + 1) := by
  induction rounds with
  | zero =>
      intro idx pos out _ _ read
      cases read
  | succ rounds ih =>
      intro idx pos out total low read
      rw [readVarintLoop] at read
      split at read
      · next inside =>
          simp only at read
          split at read
          · cases read
          · next fine =>
              have shift : 9 - rounds = idx := by omega
              obtain ⟨digit, fits⟩ := digit_fits total fine
              have wider : (out ||| ((bytes[pos] &&& 0x7f).toUInt64 <<<
                  UInt64.ofNat (idx * 7))).toNat < 128 ^ (idx + 1) := by
                rw [or_shift_toNat (by omega) low fits, Nat.pow_succ]
                have bound := Nat.mul_le_mul_right (128 ^ idx) (Nat.le_of_lt_succ digit)
                omega
              rw [shift] at read
              split at read
              · rw [Except.ok.injEq, Prod.mk.injEq] at read
                obtain ⟨rfl, rfl⟩ := read
                exact ⟨0, rfl, wider⟩
              · obtain ⟨count, rfl, small⟩ := ih (by omega) wider read
                refine ⟨count + 1, by omega, ?_⟩
                rwa [show idx + (count + 1) + 1 = idx + 1 + count + 1 by omega]
      · cases read

/-- **Writing is minimal.** No varint that reads as a value is shorter than the
one that the writer appends for it. -/
theorem writeVarint_length_le {bytes : Bytes} {pos next : Nat} {value : UInt64} {name : String}
    (read : readVarintAt bytes pos name = .ok (value, next)) :
    pos + (writeVarint value).length ≤ next := by
  obtain ⟨count, rfl, small⟩ :=
    @readVarintLoop_small bytes name value next 10 0 pos 0 rfl (by decide) read
  rw [Nat.zero_add] at small
  have length := writeVarintLoop_length_le 10 value count small
  rw [writeVarint]
  omega

/-- A varint that is read ends inside the bytes. -/
theorem readVarintLoop_inside {bytes : Bytes} {name : String} {value : UInt64} {next : Nat}
    (rounds : Nat) : ∀ {pos : Nat} {out : UInt64},
      readVarintLoop bytes name rounds pos out = .ok (value, next) → next ≤ bytes.length := by
  induction rounds with
  | zero =>
      intro pos out read
      cases read
  | succ rounds ih =>
      intro pos out read
      rw [readVarintLoop] at read
      split at read
      · next inside =>
          simp only at read
          split at read
          · cases read
          · split at read
            · rw [Except.ok.injEq, Prod.mk.injEq] at read
              omega
            · exact ih read
      · cases read

/-! ## Read and written back -/

/-- A zigzag that is undone can be done again. -/
theorem zigzagI64_unzigzagI64 (value : UInt64) : zigzagI64 (unzigzagI64 value) = value := by
  obtain ⟨low, high⟩ := zigzagI64_bit (unzigzagI64 value)
  have bit : ∀ i, i < 64 → (unzigzagI64 value).toBitVec.getLsbD i =
      (value.toBitVec.getLsbD (i + 1) ^^ value.toBitVec.getLsbD 0) := by
    intro i inside
    change (value.toBitVec >>> 1 ^^^ -(value.toBitVec &&& 1#64)).getLsbD i = _
    rw [BitVec.getLsbD_xor, neg_bit _ _ inside, BitVec.getLsbD_ushiftRight, Nat.add_comm]
  have sign : (unzigzagI64 value).toBitVec.getLsbD 63 = value.toBitVec.getLsbD 0 := by
    rw [bit 63 (by decide), BitVec.getLsbD_of_ge _ _ (by decide), Bool.false_xor]
  apply UInt64.toBitVec_inj.mp
  apply BitVec.eq_of_getLsbD_eq
  intro i inside
  cases i with
  | zero => rw [low, sign]
  | succ i => rw [high i (by omega), bit i (by omega), sign, Bool.xor_assoc, Bool.xor_self,
      Bool.xor_false]

/-- A value that fits a `u32` comes back. -/
theorem readU32_eq_ok {value : UInt64} {name : String} {result : UInt32}
    (fits : readU32 value name = .ok result) : result.toUInt64 = value := by
  unfold readU32 at fits
  split at fits
  · next small =>
      cases fits
      apply UInt64.toNat_inj.mp
      rw [UInt32.toNat_toUInt64, UInt64.toNat_toUInt32, Nat.mod_eq_of_lt small]
  · cases fits

/-- A timestamp or series value that was reconstructed has the delta it came from. -/
theorem deltaU32_addDelta {prev value : UInt32} {delta : Int64} {name : String}
    (added : addDeltaU32 prev delta name = .ok value) : deltaU32 value prev = delta := by
  unfold addDeltaU32 at added
  simp only at added
  split at added
  · next range =>
      cases added
      have below : (prev.toNat + delta.toInt).toNat < 2 ^ 32 := by omega
      rw [deltaU32, UInt32.toNat_ofNat', Nat.mod_eq_of_lt below, Int.toNat_of_nonneg range.1,
        add_sub_cancel_left, Int64.ofInt_toInt]
  · cases added

/-- A checked sum of a `u64` has its difference. -/
theorem deltaU64_addDelta {prev value : UInt64} {delta : Int64} {name : String}
    (added : addDeltaU64 prev delta name = .ok value) :
    (value.toNat : Int) - prev.toNat = delta.toInt := by
  unfold addDeltaU64 at added
  simp only at added
  split at added
  · next range =>
      cases added
      have below : (prev.toNat + delta.toInt).toNat < 2 ^ 64 := by omega
      rw [UInt64.toNat_ofNat', Nat.mod_eq_of_lt below, Int.toNat_of_nonneg range.1,
        add_sub_cancel_left]
  · cases added

/-- A checked sum of an `i64` has its difference. -/
theorem deltaI64_addDelta {prev value : Int64} {delta : Int64} {name : String}
    (added : addDeltaI64 prev delta name = .ok value) :
    value.toInt - prev.toInt = delta.toInt := by
  unfold addDeltaI64 at added
  simp only at added
  split at added
  · next range =>
      cases added
      rw [Int64.toInt_ofInt_of_le range.1 range.2, add_sub_cancel_left]
  · cases added

/-- A difference that was read fits. -/
theorem fitsI64_toInt (delta : Int64) : FitsI64 delta.toInt :=
  ⟨delta.le_toInt, delta.toInt_lt⟩

/-! ## What is left of the columns -/

/-- Bytes of every column, and pieces of any. -/
abbrev Cost := (Column → Nat) × Nat

/-- The cost of a part. -/
def cost (part : ColStreams) (pieces : Nat) : Cost := (fun column => (part column).length, pieces)

/-- The costs of parts are added up. -/
theorem cost_append (first second : ColStreams) (m n : Nat) :
    cost first m + cost second n = cost (first ++ second) (m + n) := by
  refine Prod.ext (funext fun column => ?_) rfl
  exact (List.length_append ..).symm

/-- Bytes of a column not read yet. -/
def ColReader.unread (reader : ColReader) : Nat := reader.bytes.length - reader.pos

namespace Checked

/-- The cursor of a column, if it exists. -/
def ColReaders.reader? (cols : ColReaders) : Column → Option ColReader
  | .fixed col => cols.fixed[place col]?
  | .stat idx => cols.stat[idx]?
  | .rune idx => cols.rune[idx]?

/-- Bytes of some columns not read yet. -/
def unreadIn (readers : List ColReader) : Nat := (readers.map ColReader.unread).sum

/-- What is left to read: in each column, and in all of them. -/
def ColReaders.left (cols : ColReaders) : Cost :=
  (fun column => (cols.reader? column).elim 0 ColReader.unread,
    unreadIn cols.fixed + unreadIn cols.stat + unreadIn cols.rune)

end Checked

open Checked

/-- What a cursor reads is taken from the sum. -/
theorem unreadIn_set {readers : List ColReader} {reader next : ColReader} :
    ∀ {idx : Nat}, readers[idx]? = some reader →
      unreadIn (readers.set idx next) + reader.unread = unreadIn readers + next.unread := by
  induction readers with
  | nil =>
      intro idx there
      cases there
  | cons first readers ih =>
      intro idx there
      cases idx with
      | zero =>
          cases there
          simp only [List.set_cons_zero, unreadIn, List.map_cons, List.sum_cons]
          omega
      | succ idx =>
          have rest := @ih idx there
          simp only [List.set_cons_succ, unreadIn, List.map_cons, List.sum_cons] at rest ⊢
          omega

/-- Each fixed column has a place of its own. -/
theorem place_injective {col other : Col} (same : place other = place col) : other = col := by
  have left : Col.all[place other]? = some other := List.getElem?_idxOf (Col.mem_all other)
  have right : Col.all[place col]? = some col := List.getElem?_idxOf (Col.mem_all col)
  rw [same, right] at left
  exact (Option.some.inj left).symm

section Step

variable {reader next : ColReader} {bytes : Bytes} {pieces : Nat}

/-- Moving one cursor of a vector. -/
theorem unread_set {readers : List ColReader} {idx : Nat} (there : readers[idx]? = some reader)
    (paid : bytes.length + next.unread ≤ reader.unread) (i : Nat) :
    (if i = idx then bytes else []).length +
        ((readers.set idx next)[i]?).elim 0 ColReader.unread ≤
      (readers[i]?).elim 0 ColReader.unread := by
  obtain ⟨inside, own⟩ := List.getElem?_eq_some_iff.mp there
  by_cases same : i = idx
  · subst same
    rw [if_pos rfl, List.getElem?_set_self inside, there]
    exact paid
  · rw [if_neg same, List.getElem?_set_ne (Ne.symm same)]
    exact Nat.le_of_eq (Nat.zero_add _)

variable {cols : Checked.ColReaders}

/-- Moving the cursor of a fixed column. -/
theorem left_fixed {col : Col} (there : cols.fixed[place col]? = some reader)
    (paid : bytes.length + next.unread ≤ reader.unread) (few : pieces ≤ bytes.length) :
    cost (fixedPart col bytes) pieces +
        Checked.ColReaders.left { cols with fixed := cols.fixed.set (place col) next } ≤
      cols.left := by
  constructor
  · intro column
    cases column with
    | fixed other =>
        have step := unread_set there paid (place other)
        have same : place other = place col ↔ other = col := ⟨place_injective, congrArg place⟩
        simp only [same] at step
        change (if Column.fixed other = .fixed col then bytes else []).length +
          ((cols.fixed.set (place col) next)[place other]?).elim 0 ColReader.unread ≤ _
        simp only [Column.fixed.injEq]
        exact step
    | stat idx => exact Nat.le_of_eq (Nat.zero_add _)
    | rune idx => exact Nat.le_of_eq (Nat.zero_add _)
  · have total := @unreadIn_set _ _ next _ there
    change pieces + (unreadIn (cols.fixed.set (place col) next) + unreadIn cols.stat +
      unreadIn cols.rune) ≤ unreadIn cols.fixed + unreadIn cols.stat + unreadIn cols.rune
    omega

/-- Moving the cursor of a stat column. -/
theorem left_stat {idx : Nat} (there : cols.stat[idx]? = some reader)
    (paid : bytes.length + next.unread ≤ reader.unread) (few : pieces ≤ bytes.length) :
    cost (.single (.stat idx) bytes) pieces +
      Checked.ColReaders.left { cols with stat := cols.stat.set idx next } ≤ cols.left := by
  constructor
  · intro column
    cases column with
    | fixed col => exact Nat.le_of_eq (Nat.zero_add _)
    | stat other =>
        change (if Column.stat other = .stat idx then bytes else []).length +
          ((cols.stat.set idx next)[other]?).elim 0 ColReader.unread ≤ _
        simp only [Column.stat.injEq]
        exact unread_set there paid other
    | rune other => exact Nat.le_of_eq (Nat.zero_add _)
  · have total := @unreadIn_set _ _ next _ there
    change pieces + (unreadIn cols.fixed + unreadIn (cols.stat.set idx next) +
      unreadIn cols.rune) ≤ unreadIn cols.fixed + unreadIn cols.stat + unreadIn cols.rune
    omega

/-- Moving the cursor of a rune column. -/
theorem left_rune {idx : Nat} (there : cols.rune[idx]? = some reader)
    (paid : bytes.length + next.unread ≤ reader.unread) (few : pieces ≤ bytes.length) :
    cost (.single (.rune idx) bytes) pieces +
      Checked.ColReaders.left { cols with rune := cols.rune.set idx next } ≤ cols.left := by
  constructor
  · intro column
    cases column with
    | fixed col => exact Nat.le_of_eq (Nat.zero_add _)
    | stat other => exact Nat.le_of_eq (Nat.zero_add _)
    | rune other =>
        change (if Column.rune other = .rune idx then bytes else []).length +
          ((cols.rune.set idx next)[other]?).elim 0 ColReader.unread ≤ _
        simp only [Column.rune.injEq]
        exact unread_set there paid other
  · have total := @unreadIn_set _ _ next _ there
    change pieces + (unreadIn cols.fixed + unreadIn cols.stat +
      unreadIn (cols.rune.set idx next)) ≤
        unreadIn cols.fixed + unreadIn cols.stat + unreadIn cols.rune
    omega

end Step

/-! ## Scalars -/

/-- A varint that was read without a panic is the one of the model. -/
theorem Checked.readVarintLoop_ok {bytes : Bytes} {name : String} {result : UInt64 × Nat}
    (rounds : Nat) : ∀ {idx pos : Nat} {out : UInt64}, rounds + idx = 10 →
      Checked.readVarintLoop bytes name rounds idx pos out = .ok result →
        Columnar.readVarintLoop bytes name rounds pos out = .ok result := by
  induction rounds with
  | zero =>
      intro idx pos out _ read
      cases read
  | succ rounds ih =>
      intro idx pos out total read
      have last : idx = 9 ↔ rounds = 0 := by omega
      have shift : 9 - rounds = idx := by omega
      rw [Checked.readVarintLoop] at read
      obtain ⟨_, checked, read⟩ := bind_eq_ok.mp read
      by_cases inside : pos < bytes.length
      · obtain ⟨byte, found, read⟩ := bind_eq_ok.mp read
        rw [index_eq_ok inside] at found
        cases found
        obtain ⟨after, added, read⟩ := bind_eq_ok.mp read
        have moved : after = pos + 1 := by
          rw [Checked.add, plus] at added
          split at added
          · exact (Except.ok.inj added).symm
          · cases added
        subst moved
        have bits := shl_eq_ok (by omega : idx * 7 < 64) (bytes[pos] &&& 0x7f).toUInt64
        rw [bits] at read
        rw [Columnar.readVarintLoop, dif_pos inside]
        simp only [last, shift] at read ⊢
        split at read
        · cases read
        · next fine =>
            rw [if_neg fine]
            change (if bytes[pos] &&& 0x80 = 0 then _ else _) = _ at read
            split at read
            · next stop =>
                cases read
                rw [if_pos stop]
            · next goes =>
                rw [if_neg goes]
                exact ih (by omega) read
      · rw [decide_eq_false inside] at checked
        cases checked

/-- A varint that is read takes at least the bytes of its shortest form. -/
theorem varint_paid {reader next : ColReader} {value : UInt64} {name : String}
    (read : Checked.varint reader name = .ok (value, next)) :
    (writeVarint value).length + next.unread ≤ reader.unread := by
  obtain ⟨⟨raw, pos⟩, loop, built⟩ := bind_eq_ok.mp read
  cases built
  have model : readVarintAt reader.bytes reader.pos name = .ok (value, pos) :=
    Checked.readVarintLoop_ok 10 rfl loop
  have written := writeVarint_length_le model
  have inside := readVarintLoop_inside 10 model
  change _ + (reader.bytes.length - pos) ≤ reader.bytes.length - reader.pos
  omega

/-- An index that is found is inside. -/
theorem index_some {α : Type} {list : List α} {i : Nat} {value : α}
    (found : index list i = .ok value) : list[i]? = some value := by
  unfold index at found
  split at found
  · next there =>
      cases found
      exact there
  · cases found

/-- A varint cell pays for itself. -/
theorem rv_takes (col : Col) :
    Takes Checked.ColReaders.left (Checked.rv col) fun value paid =>
      paid = cost (varintPart col value) 1 := by
  intro cols value later run
  obtain ⟨reader, found, run⟩ := bind_eq_ok.mp run
  obtain ⟨name, _, run⟩ := bind_eq_ok.mp run
  obtain ⟨⟨raw, next⟩, read, built⟩ := bind_eq_ok.mp run
  cases built
  exact ⟨_, rfl, left_fixed (index_some found) (varint_paid read) (writeVarint_length_pos _)⟩

/-- A zigzag cell pays for itself. -/
theorem rz_takes (col : Col) :
    Takes Checked.ColReaders.left (Checked.rz col) fun value paid =>
      paid = cost (zigzagPart col value) 1 := by
  apply (rv_takes col).step
  intro value
  apply Takes.pure
  rw [add_zero, zigzagPart, zigzagI64_unzigzagI64]

/-- A wrapped result that succeeds is the result. -/
theorem returns_eq_ok {α : Type} {result : Except Error α} {value : α}
    (success : returns result = .ok value) : result = .ok value := by
  cases result with
  | error messages => cases success
  | ok inner =>
      cases success
      rfl

/-- A `u32` cell pays for itself. -/
theorem rv32_takes (col : Col) (name : String) :
    Takes Checked.ColReaders.left (Checked.rv32 col name) fun value paid =>
      paid = cost (varintPart col value.toUInt64) 1 := by
  apply (rv_takes col).step
  intro value
  apply Takes.lift
  intro result fits
  rw [add_zero, readU32_eq_ok (returns_eq_ok fits)]

/-- The length of a vector pays for itself. -/
theorem rvLen_takes (col : Col) (name : String) :
    Takes Checked.ColReaders.left (Checked.rvLen col name) fun value paid =>
      paid = cost (varintPart col (.ofNat value)) 1 := by
  apply (rv_takes col).step
  intro value
  apply Takes.lift
  intro result fits
  rw [add_zero, toUsize_eq_ok.mp (returns_eq_ok fits), UInt64.ofNat_toNat]

/-- A cell of bytes pays for the bytes. -/
theorem rbytes_takes (col : Col) (len : Nat) :
    Takes Checked.ColReaders.left (Checked.rbytes col len) fun bytes paid =>
      bytes.length = len ∧ paid = cost (fixedPart col bytes) 0 := by
  intro cols value later run
  obtain ⟨reader, found, run⟩ := bind_eq_ok.mp run
  obtain ⟨name, _, run⟩ := bind_eq_ok.mp run
  obtain ⟨⟨raw, next⟩, read, built⟩ := bind_eq_ok.mp run
  cases built
  rw [Checked.take_eq] at read
  obtain ⟨last, added, rest⟩ := bind_eq_ok.mp (returns_eq_ok read)
  obtain ⟨_, within, built⟩ := bind_eq_ok.mp rest
  cases built
  obtain ⟨rfl, _⟩ := checkedAdd_eq_some.mp (orBail_eq_ok.mp added)
  have within := of_decide_eq_true (ensure_eq_ok.mp within)
  have length : ((reader.bytes.drop reader.pos).take len).length = len := by
    rw [List.length_take, List.length_drop]
    omega
  refine ⟨_, ⟨length, rfl⟩, left_fixed (index_some found) ?_ (Nat.zero_le _)⟩
  rw [length]
  change len + (reader.bytes.length - (reader.pos + len)) ≤ reader.bytes.length - reader.pos
  omega

/-- A cell of a stat column pays for itself. -/
theorem statZ_takes (idx : Nat) :
    Takes Checked.ColReaders.left (Checked.statZ idx) fun value paid =>
      paid = cost (.single (.stat idx) (writeVarint (zigzagI64 value))) 1 := by
  intro cols value later run
  obtain ⟨reader, found, run⟩ := bind_eq_ok.mp run
  obtain ⟨⟨raw, next⟩, read, built⟩ := bind_eq_ok.mp run
  cases built
  refine ⟨_, rfl, ?_⟩
  rw [zigzagI64_unzigzagI64]
  exact left_stat (orBail_eq_ok.mp (returns_eq_ok found)) (varint_paid read)
    (writeVarint_length_pos _)

/-- A cell of a rune column pays for itself. -/
theorem runeV_takes (idx : Nat) :
    Takes Checked.ColReaders.left (Checked.runeV idx) fun value paid =>
      paid = cost (.single (.rune idx) (writeVarint value)) 1 := by
  intro cols value later run
  obtain ⟨reader, found, run⟩ := bind_eq_ok.mp run
  obtain ⟨⟨raw, next⟩, read, built⟩ := bind_eq_ok.mp run
  cases built
  exact ⟨_, rfl, left_rune (orBail_eq_ok.mp (returns_eq_ok found)) (varint_paid read)
    (writeVarint_length_pos _)⟩

/-! ## Elements -/

/-- Runes and stats of a participant. -/
def Participant.elements (participant : Participant) : Nat :=
  participant.runes.length + participant.stats.length

/-- Series values of a frame. -/
def MinuteFrame.elements (frame : MinuteFrame) : Nat :=
  frame.totalGold.length + frame.xp.length + frame.cs.length + frame.dmgToChamps.length

/-- Frames, series values, kills, objectives and wards of a timeline. -/
def TimelineLite.elements (timeline : TimelineLite) : Nat :=
  timeline.frames.length + (timeline.frames.map MinuteFrame.elements).sum +
    timeline.kills.length + timeline.objectives.length + timeline.wards.length

/-- The record itself, and all that it contains. -/
def Contents.elements (contents : Contents) : Nat :=
  1 + contents.participants.length + (contents.participants.map Participant.elements).sum +
    contents.bans.length + contents.timeline.elim 0 TimelineLite.elements

/-! ## Records -/

/-- A part of at least so many pieces. -/
def Part (part : ColStreams) (least : Nat) (paid : Cost) : Prop :=
  ∃ pieces, least ≤ pieces ∧ paid = cost part pieces

/-- Two parts are paid for by what pays for each. -/
theorem Part.append {first second : ColStreams} {m n : Nat} {paid rest : Cost}
    (left : Part first m paid) (right : Part second n rest) :
    Part (first ++ second) (m + n) (paid + rest) := by
  obtain ⟨pieces, enough, rfl⟩ := left
  obtain ⟨more, sufficient, rfl⟩ := right
  exact ⟨pieces + more, Nat.add_le_add enough sufficient, cost_append ..⟩

/-- A loop takes the parts of its rounds. -/
theorem decodeLoop_takes {α : Type} {body : Nat → Checked.Read α} {part : α → Nat → ColStreams}
    {weight : α → Nat} (round : ∀ idx, Takes Checked.ColReaders.left (body idx) fun item paid =>
      Part (part item idx) (weight item) paid) (left : Nat) :
    ∀ idx, Takes Checked.ColReaders.left (Checked.decodeLoop body left idx) fun items paid =>
      items.length = left ∧
        Part (.concat ((items.zipIdx idx).map fun item => part item.1 item.2))
          (items.map weight).sum paid := by
  induction left with
  | zero => exact fun _ => .pure ⟨rfl, 0, Nat.le_refl 0, rfl⟩
  | succ left ih =>
      intro idx
      apply (round idx).bind
      intro item paid first
      apply (ih (idx + 1)).bind
      rintro rest others ⟨count, more⟩
      apply Takes.pure
      rw [add_zero]
      refine ⟨congrArg (· + 1) count, ?_⟩
      have whole := first.append more
      rwa [← List.sum_cons, ← List.map_cons] at whole

/-- A rune is paid for. -/
theorem decodeRune_takes (idx : Nat) :
    Takes Checked.ColReaders.left (Checked.decodeRune idx) fun rune paid =>
      Part (.single (.rune idx) (writeVarint rune.toUInt64)) 1 paid := by
  apply (runeV_takes idx).step
  intro value
  apply Takes.lift
  intro rune fits
  rw [add_zero, readU32_eq_ok (returns_eq_ok fits)]
  exact ⟨1, Nat.le_refl 1, rfl⟩

/-- A ban is paid for. -/
theorem decodeBan_takes (idx : Nat) :
    Takes Checked.ColReaders.left (Checked.decodeBan idx) fun ban paid =>
      Part (varintPart .bans ban.toUInt64) 1 paid :=
  (rv32_takes .bans "ban").weaken fun _ _ paid => ⟨1, Nat.le_refl 1, paid⟩

/-- A participant is paid for, with its runes and stats. -/
theorem decodeParticipant_takes (idx : Nat) :
    Takes Checked.ColReaders.left (Checked.decodeParticipant idx) fun participant paid =>
      Part (participantPart participant) (1 + Participant.elements participant) paid := by
  unfold Checked.decodeParticipant
  apply (rv32_takes .pPlayer _).step
  intro playerId
  apply (rv32_takes .pChamp _).step
  intro championId
  apply (rv32_takes .pPos _).step
  intro position
  apply (rv32_takes .pSp1 _).step
  intro spell1
  apply (rv32_takes .pSp2 _).step
  intro spell2
  apply (rvLen_takes .pRunesN _).step
  intro nRunes
  apply (decodeLoop_takes decodeRune_takes nRunes 0).bind
  rintro runes _ ⟨rfl, runePieces, runeCount, rfl⟩
  apply (rvLen_takes .pStatsN _).step
  intro nStats
  have stat : ∀ idx, Takes Checked.ColReaders.left (Checked.statZ idx) fun stat paid =>
      Part (.single (.stat idx) (writeVarint (zigzagI64 stat))) 1 paid :=
    fun idx => (statZ_takes idx).weaken fun _ _ paid => ⟨1, Nat.le_refl 1, paid⟩
  apply (decodeLoop_takes stat nStats 0).bind
  rintro stats _ ⟨rfl, statPieces, statCount, rfl⟩
  apply Takes.pure
  rw [List.map_const', List.sum_replicate_nat, Nat.mul_one] at runeCount statCount
  simp only [add_zero, cost_append]
  refine ⟨_, ?_, congrArg₂ cost ?_ rfl⟩
  · change 1 + (runes.length + stats.length) ≤ _
    omega
  · simp only [participantPart, fieldsPart, Participant.fields, List.map_cons, List.map_nil,
      Streams.concat_cons, Streams.concat_nil, Streams.append_empty, Streams.append_assoc,
      runesPart, statsPart]

/-- The values of a series, each one piece. -/
theorem decodeValues_takes (vCol : Col) (name : String) {prevSeries : List (List UInt32)}
    {idx : Nat} {prev : List UInt32} (there : prevSeries[idx]? = some prev) (left : Nat) :
    ∀ slot, Takes Checked.ColReaders.left
      (Checked.decodeValues vCol name prevSeries idx left slot) fun values paid =>
        values.length = left ∧ paid = cost (valuesPart vCol values prev slot) values.length := by
  induction left with
  | zero => exact fun _ => .pure ⟨rfl, rfl⟩
  | succ left ih =>
      intro slot
      apply Takes.lift_bind
      intro found success
      obtain rfl : prev = found := Option.some.inj (there.symm.trans (index_some success))
      apply (rz_takes vCol).step
      intro delta
      apply Takes.lift_bind
      intro value added
      obtain rfl := deltaU32_addDelta (returns_eq_ok added)
      apply (ih (slot + 1)).bind
      rintro rest _ ⟨count, rfl⟩
      apply Takes.pure
      refine ⟨congrArg (· + 1) count, ?_⟩
      simp only [add_zero, cost_append]
      exact congrArg₂ cost rfl (Nat.add_comm ..)

/-- The series loop against the frame before, entry by entry. -/
theorem decodeSeriesAll_takes (specs : List (UInt32 × Col × Col × String)) :
    ∀ read prev : List (List UInt32), specs.length = prev.length →
      Takes Checked.ColReaders.left (Checked.decodeSeriesAll specs read.length (read ++ prev))
        fun series paid => ∃ next, series = read ++ next ∧ next.length = specs.length ∧
          Part (seriesPart ((specs.zip next).map fun each =>
            (each.1.2.1, each.1.2.2.1, each.2)) prev) (next.map List.length).sum paid := by
  induction specs with
  | nil =>
      intro read prev same
      exact .pure ⟨[], List.eq_nil_of_length_eq_zero same.symm ▸ rfl, rfl, 0, Nat.le_refl 0, rfl⟩
  | cons spec specs ih =>
      obtain ⟨field, nCol, vCol, name⟩ := spec
      intro read prev same
      cases prev with
      | nil => cases same
      | cons first prev =>
          have there : (read ++ first :: prev)[read.length]? = some first := by
            rw [List.getElem?_append_right (Nat.le_refl _), Nat.sub_self]
            rfl
          apply (rvLen_takes nCol name).step
          intro count
          apply (decodeValues_takes vCol name there count 0).bind
          rintro values _ ⟨rfl, rfl⟩
          apply Takes.lift_bind
          intro stored success
          have overwritten : stored = (read ++ [values]) ++ prev := by
            rw [store_eq_ok (List.getElem?_eq_some_iff.mp there).1] at success
            cases success
            rw [List.set_append_right _ _ (Nat.le_refl _), Nat.sub_self, List.set_cons_zero,
              List.append_assoc]
            rfl
          subst overwritten
          have rest := ih (read ++ [values]) prev (Nat.succ.inj same)
          rw [List.length_append, List.length_singleton] at rest
          apply rest.weaken
          rintro series _ ⟨next, rfl, length, pieces, enough, rfl⟩
          refine ⟨values :: next, List.append_assoc .., congrArg (· + 1) length, ?_⟩
          simp only [cost_append]
          refine ⟨_, ?_, congrArg₂ cost rfl rfl⟩
          rw [List.map_cons, List.sum_cons]
          omega

/-- The frames are paid for, with their values. -/
theorem decodeFrames_takes (left : Nat) : ∀ prev : List (List UInt32), prev.length = 4 →
    Takes Checked.ColReaders.left (Checked.decodeFrames left prev) fun frames paid =>
      frames.length = left ∧
        Part (framesPart frames prev) (left + (frames.map MinuteFrame.elements).sum) paid := by
  induction left with
  | zero => exact fun _ _ => .pure ⟨rfl, 0, Nat.le_refl 0, rfl⟩
  | succ left ih =>
      intro prev four
      apply (rv32_takes .fMinute "minute").step
      intro minute
      apply (decodeSeriesAll_takes frameSeries [] prev four.symm).bind
      rintro series _ ⟨next, rfl, length, pieces, enough, rfl⟩
      apply (ih series length).bind
      rintro rest _ ⟨count, more, sufficient, rfl⟩
      apply Takes.pure
      obtain ⟨gold, others, rfl⟩ := List.exists_cons_of_length_eq_add_one length
      obtain ⟨xp, cs, damage, rfl⟩ := List.length_eq_three.mp (Nat.succ.inj length)
      refine ⟨congrArg (· + 1) count, ?_⟩
      simp only [add_zero, cost_append]
      refine ⟨_, ?_, congrArg₂ cost rfl rfl⟩
      simp only [List.map_cons, List.map_nil, List.sum_cons, List.sum_nil] at enough ⊢
      change left + 1 + (gold.length + xp.length + cs.length + damage.length + _) ≤ _
      omega

/-- An event loop takes the events one after the other. -/
theorem decodeEvents_takes {Event : Type} {tCol : Col} {time : Event → UInt32}
    {fields : Event → List (Col × UInt32)} {others : UInt32 → Checked.Read Event} (tName : String)
    (event : ∀ t, Takes Checked.ColReaders.left (others t) fun event paid =>
      time event = t ∧ Part (fieldsPart (fields event)) 0 paid) (left : Nat) :
    ∀ prevT, Takes Checked.ColReaders.left (Checked.decodeEvents tCol tName others left prevT)
      fun events paid => events.length = left ∧
        Part (eventsPart tCol time fields events prevT) left paid := by
  induction left with
  | zero => exact fun _ => .pure ⟨rfl, 0, Nat.le_refl 0, rfl⟩
  | succ left ih =>
      intro prevT
      apply (rz_takes tCol).step
      intro delta
      apply Takes.lift_bind
      intro t added
      obtain rfl := deltaU32_addDelta (returns_eq_ok added)
      apply (event t).bind
      rintro event _ ⟨rfl, pieces, _, rfl⟩
      apply (ih _).bind
      rintro rest _ ⟨count, more, enough, rfl⟩
      apply Takes.pure
      refine ⟨congrArg (· + 1) count, ?_⟩
      simp only [add_zero, cost_append]
      exact ⟨_, by omega, congrArg₂ cost rfl rfl⟩

/-- A kill is paid for. -/
theorem decodeKill_takes (t : UInt32) :
    Takes Checked.ColReaders.left (Checked.decodeKill t) fun kill paid =>
      kill.tS = t ∧ Part (fieldsPart (KillEvent.fields kill)) 0 paid := by
  apply (rv32_takes .kKiller _).step
  intro killer
  apply (rv32_takes .kVictim _).step
  intro victim
  apply (rv32_takes .kMask _).step
  intro assistMask
  apply (rv32_takes .kX _).step
  intro x
  apply (rv32_takes .kY _).step
  intro y
  apply Takes.pure
  simp only [add_zero, cost_append]
  refine ⟨trivial, _, Nat.zero_le _, congrArg₂ cost ?_ rfl⟩
  simp only [fieldsPart, KillEvent.fields, List.map_cons, List.map_nil, Streams.concat_cons,
    Streams.concat_nil, Streams.append_empty]

/-- An objective is paid for. -/
theorem decodeObjective_takes (t : UInt32) :
    Takes Checked.ColReaders.left (Checked.decodeObjective t) fun objective paid =>
      objective.tS = t ∧ Part (fieldsPart (ObjectiveEvent.fields objective)) 0 paid := by
  apply (rv32_takes .oKind _).step
  intro kind
  apply (rv32_takes .oKiller _).step
  intro killer
  apply (rv32_takes .oTeam _).step
  intro losingTeam
  apply (rv32_takes .oLane _).step
  intro lane
  apply Takes.pure
  simp only [add_zero, cost_append]
  refine ⟨trivial, _, Nat.zero_le _, congrArg₂ cost ?_ rfl⟩
  simp only [fieldsPart, ObjectiveEvent.fields, List.map_cons, List.map_nil, Streams.concat_cons,
    Streams.concat_nil, Streams.append_empty]

/-- A ward is paid for. -/
theorem decodeWard_takes (t : UInt32) :
    Takes Checked.ColReaders.left (Checked.decodeWard t) fun ward paid =>
      ward.tS = t ∧ Part (fieldsPart (WardEvent.fields ward)) 0 paid := by
  apply (rv32_takes .wKind _).step
  intro kind
  apply (rv32_takes .wPart _).step
  intro participant
  apply Takes.pure
  simp only [add_zero, cost_append]
  refine ⟨trivial, _, Nat.zero_le _, congrArg₂ cost ?_ rfl⟩
  simp only [fieldsPart, WardEvent.fields, List.map_cons, List.map_nil, Streams.concat_cons,
    Streams.concat_nil, Streams.append_empty]

/-- A timeline is paid for, with all that it has. -/
theorem decodeTimeline_takes :
    Takes Checked.ColReaders.left Checked.decodeTimeline fun timeline paid =>
      Part (timelinePart timeline) (TimelineLite.elements timeline) paid := by
  apply (rvLen_takes .nframes _).step
  intro nFrames
  apply (decodeFrames_takes nFrames _ rfl).bind
  rintro frames _ ⟨rfl, framePieces, frameCount, rfl⟩
  apply (rvLen_takes .nkills _).step
  intro nKills
  apply (decodeEvents_takes _ decodeKill_takes nKills 0).bind
  rintro kills _ ⟨rfl, killPieces, killCount, rfl⟩
  apply (rvLen_takes .nobjs _).step
  intro nObjs
  apply (decodeEvents_takes _ decodeObjective_takes nObjs 0).bind
  rintro objectives _ ⟨rfl, objectivePieces, objectiveCount, rfl⟩
  apply (rvLen_takes .nwards _).step
  intro nWards
  apply (decodeEvents_takes _ decodeWard_takes nWards 0).bind
  rintro wards _ ⟨rfl, wardPieces, wardCount, rfl⟩
  apply Takes.pure
  simp only [add_zero, cost_append]
  refine ⟨_, ?_, congrArg₂ cost rfl rfl⟩
  change frames.length + (frames.map MinuteFrame.elements).sum + kills.length +
    objectives.length + wards.length ≤ _
  omega

/-- The parts of rounds that do not depend on their index. -/
theorem concat_zipIdx {α : Type} (items : List α) (part : α → ColStreams) (idx : Nat) :
    Streams.concat ((items.zipIdx idx).map fun item => part item.1) = .concat (items.map part) := by
  have fst : (items.zipIdx idx).map Prod.fst = items := List.zipIdx_map_fst ..
  calc Streams.concat ((items.zipIdx idx).map fun item => part item.1)
      = .concat (((items.zipIdx idx).map Prod.fst).map part) := by rw [List.map_map]; rfl
    _ = .concat (items.map part) := by rw [fst]

/-- A timeline that may be absent is paid for. -/
theorem decodePresent_takes {tlPresent : UInt64} (flag : tlPresent ≤ 1) :
    Takes Checked.ColReaders.left (Checked.decodePresent tlPresent) fun timeline paid =>
      (if timeline.isSome then 1 else 0) = tlPresent ∧
        Part (timeline.elim .empty timelinePart) (timeline.elim 0 TimelineLite.elements) paid := by
  unfold Checked.decodePresent
  split
  · next one =>
      apply decodeTimeline_takes.bind
      rintro timeline _ taken
      apply Takes.pure
      rw [add_zero]
      exact ⟨one.symm, taken⟩
  · next other =>
      rcases flag_cases flag with rfl | one
      · exact .pure ⟨rfl, 0, Nat.le_refl 0, rfl⟩
      · exact absurd one other

/-- The part of a record's contents, in the order of the decoder. -/
def contentsPart (state : BlockState) (contents : Contents) : ColStreams :=
  varintPart .schema contents.schemaVersion.toUInt64 ++
    (zigzagPart .gidD (.ofInt (contents.gameId.toNat - state.gameId.toNat)) ++
    (varintPart .platLen (.ofNat contents.platform.length) ++
    (fixedPart .plat contents.platform ++ (varintPart .queue contents.queueId.toUInt64 ++
    (zigzagPart .startD (.ofInt (contents.gameStartMs.toInt - state.gameStartMs.toInt)) ++
    (varintPart .dur contents.durationS.toUInt64 ++
    (varintPart .blue (if contents.blueWon then 1 else 0) ++
    (varintPart .gvLen (.ofNat contents.gameVersion.length) ++
    (fixedPart .gv contents.gameVersion ++ (varintPart .pmaj contents.patchMajor.toUInt64 ++
    (varintPart .pmin contents.patchMinor.toUInt64 ++
    (participantsPart contents.participants ++
    (optionalPart contents.timeline ++ bansPart contents.bans)))))))))))))

/-- The delta state after a record. -/
def BlockState.afterContents (contents : Contents) : BlockState :=
  { gameId := contents.gameId, gameStartMs := contents.gameStartMs }

/-- The differences of a record to the one before fit in an `i64`. -/
def ContentsFit (state : BlockState) (contents : Contents) : Prop :=
  FitsI64 (contents.gameId.toNat - state.gameId.toNat) ∧
    FitsI64 (contents.gameStartMs.toInt - state.gameStartMs.toInt)

/-- A record is paid for, and has counts that fit. -/
theorem decodeRecord_takes (state : BlockState) :
    Takes Checked.ColReaders.left (Checked.decodeRecord state) fun read paid =>
      read.2 = .afterContents read.1 ∧ ContentsFit state read.1 ∧
        Part (contentsPart state read.1) read.1.elements paid := by
  apply (rv32_takes .schema _).step
  intro schema
  apply (rz_takes .gidD).step
  intro gidD
  apply Takes.lift_bind
  intro gameId added
  have gameDelta := deltaU64_addDelta (returns_eq_ok added)
  apply (rvLen_takes .platLen _).step
  intro platformLen
  apply (rbytes_takes .plat platformLen).bind
  rintro platform _ ⟨rfl, rfl⟩
  apply (rv32_takes .queue _).step
  intro queueId
  apply (rz_takes .startD).step
  intro startD
  apply Takes.lift_bind
  intro gameStartMs added
  have startDelta := deltaI64_addDelta (returns_eq_ok added)
  apply (rv32_takes .dur _).step
  intro durationS
  apply (rv_takes .blue).step
  intro blueWon
  apply Takes.lift_bind
  intro _ checked
  have blueFlag := of_decide_eq_true (ensure_eq_ok.mp (returns_eq_ok checked))
  apply (rvLen_takes .gvLen _).step
  intro gameVersionLen
  apply (rbytes_takes .gv gameVersionLen).bind
  rintro gameVersion _ ⟨rfl, rfl⟩
  apply (rv32_takes .pmaj _).step
  intro patchMajor
  apply (rv32_takes .pmin _).step
  intro patchMinor
  apply (rvLen_takes .nparts _).step
  intro nParts
  apply (decodeLoop_takes decodeParticipant_takes nParts 0).bind
  rintro participants _ ⟨rfl, participantPieces, participantCount, rfl⟩
  apply (rv_takes .tlPresent).step
  intro tlPresent
  apply Takes.lift_bind
  intro _ checked
  have flag := of_decide_eq_true (ensure_eq_ok.mp (returns_eq_ok checked))
  apply (decodePresent_takes flag).bind
  rintro timeline _ ⟨rfl, timelinePieces, timelineCount, rfl⟩
  apply (rvLen_takes .bansN _).step
  intro nBans
  apply (decodeLoop_takes decodeBan_takes nBans 0).bind
  rintro bans _ ⟨rfl, banPieces, banCount, rfl⟩
  apply Takes.pure
  refine ⟨rfl, ⟨?_, ?_⟩, ?_⟩
  · change FitsI64 (gameId.toNat - state.gameId.toNat)
    exact gameDelta ▸ fitsI64_toInt gidD
  · change FitsI64 (gameStartMs.toInt - state.gameStartMs.toInt)
    exact startDelta ▸ fitsI64_toInt startD
  · have gid : Int64.ofInt (gameId.toNat - state.gameId.toNat) = gidD := by
      rw [gameDelta, Int64.ofInt_toInt]
    have start : Int64.ofInt (gameStartMs.toInt - state.gameStartMs.toInt) = startD := by
      rw [startDelta, Int64.ofInt_toInt]
    have blue : (if (blueWon = 1 : Bool) then 1 else 0 : UInt64) = blueWon := by
      rcases flag_cases blueFlag with rfl | rfl <;> rfl
    have banParts := concat_zipIdx bans (fun ban : UInt32 => varintPart .bans ban.toUInt64) 0
    simp only [add_zero, cost_append, banParts]
    refine ⟨_, ?_, congrArg₂ cost ?_ rfl⟩
    · rw [List.sum_map_add, List.map_const', List.sum_replicate_nat,
        Nat.mul_one] at participantCount
      rw [List.map_const', List.sum_replicate_nat, Nat.mul_one] at banCount
      change 1 + participants.length + (participants.map Participant.elements).sum + bans.length +
        timeline.elim 0 TimelineLite.elements ≤ _
      omega
    · simp only [contentsPart, gid, start, blue, participantsPart, optionalPart, bansPart,
        concat_zipIdx, Streams.append_assoc]

/-! ## Blocks -/

/-- The parts of a list of contents. -/
def contentsParts : BlockState → List Contents → ColStreams
  | _, [] => .empty
  | state, contents :: rest =>
      contentsPart state contents ++ contentsParts (.afterContents contents) rest

/-- Every difference fits, from the given delta state on. -/
def ContentsFitFrom : BlockState → List Contents → Prop
  | _, [] => True
  | state, contents :: rest =>
      ContentsFit state contents ∧ ContentsFitFrom (.afterContents contents) rest

/-- A result with a context that succeeds is the result. -/
theorem withContext_eq_ok {α : Type} {what : String} {outcome : Outcome α} {value : α}
    (success : withContext what outcome = .ok value) : outcome = .ok value := by
  unfold withContext at success
  split at success
  · exact success
  · cases success
  · cases success

/-- The records of a block are paid for, one after the other. -/
theorem decodeRecords_takes (left : Nat) : ∀ idx state,
    Takes Checked.ColReaders.left (Checked.decodeRecords left idx state) fun records paid =>
      records.length = left ∧ ContentsFitFrom state records ∧
        Part (contentsParts state records) (records.map Contents.elements).sum paid := by
  induction left with
  | zero => exact fun _ _ => .pure ⟨rfl, trivial, 0, Nat.le_refl 0, rfl⟩
  | succ left ih =>
      intro idx state
      have first : Takes Checked.ColReaders.left
          (fun cols => withContext s!"decode record {idx}" (Checked.decodeRecord state cols))
          fun read paid => read.2 = .afterContents read.1 ∧ ContentsFit state read.1 ∧
            Part (contentsPart state read.1) read.1.elements paid :=
        fun cols read later run => decodeRecord_takes state cols read later (withContext_eq_ok run)
      apply first.bind
      rintro ⟨record, after⟩ paid ⟨same, fit, taken⟩
      change after = .afterContents record at same
      subst same
      apply (ih (idx + 1) _).bind
      rintro rest others ⟨count, fits, more⟩
      apply Takes.pure
      rw [add_zero]
      refine ⟨congrArg (· + 1) count, ⟨fit, fits⟩, ?_⟩
      have whole := taken.append more
      rwa [← List.sum_cons, ← List.map_cons] at whole

/-- At first all bytes of the columns are unread. -/
theorem unreadIn_new (columns : List Bytes) :
    unreadIn (columns.map .new) = (columns.map List.length).sum := by
  rw [unreadIn, List.map_map]
  rfl

/-- The bytes of a column of the manifest; one that does not exist is empty. -/
def columnOf (columns : List Bytes) (statCols : Nat) : Column → Bytes
  | .fixed col => columns.getD (place col) []
  | .stat idx => ((columns.drop nmisc).take statCols).getD idx []
  | .rune idx => (columns.drop (nmisc + statCols)).getD idx []

/-- At first all bytes of one column are unread. -/
theorem unread_new {columns : List Bytes} (idx : Nat) :
    ((columns.map ColReader.new)[idx]?).elim 0 ColReader.unread = (columns.getD idx []).length := by
  rw [List.getElem?_map, List.getD_eq_getElem?_getD]
  cases columns[idx]? <;> rfl

/-- What is left at the start: the columns. -/
theorem start_left (columns : List Bytes) (statCols : Nat) :
    (Checked.start columns statCols).left =
      (fun column => (columnOf columns statCols column).length, columns.flatten.length) := by
  refine Prod.ext (funext fun column => ?_) ?_
  · cases column with
    | fixed col =>
        change (((columns.take nmisc).map ColReader.new)[place col]?).elim 0 ColReader.unread =
          (columns.getD (place col) []).length
        have inside : place col < nmisc := place_lt col
        rw [unread_new, List.getD_eq_getElem?_getD, List.getD_eq_getElem?_getD,
          List.getElem?_take_of_lt inside]
    | stat idx => exact unread_new idx
    | rune idx => exact unread_new idx
  · change unreadIn ((columns.take nmisc).map .new) +
      unreadIn (((columns.drop nmisc).take statCols).map .new) +
        unreadIn ((columns.drop (nmisc + statCols)).map .new) = _
    rw [unreadIn_new, unreadIn_new, unreadIn_new, List.length_flatten, ← List.sum_append,
      ← List.sum_append, ← List.map_append, ← List.map_append, ← List.drop_drop,
      List.append_assoc, List.take_append_drop, List.take_append_drop]

/-- The slices have the lengths that the manifest declares. -/
theorem slices_lengths {payload : Bytes} (lengths : List Nat) :
    ∀ off, off + lengths.sum ≤ payload.length →
      (Manifest.slices payload lengths off).map List.length = lengths := by
  induction lengths with
  | nil => exact fun _ _ => rfl
  | cons len lengths ih =>
      intro off inside
      rw [List.sum_cons] at inside
      rw [Manifest.slices, List.map_cons, ih (off + len) (by omega), List.length_take,
        List.length_drop, Nat.min_eq_left (by omega)]

/-- **What a block takes.** The contents of a block that decodes are written back in
no more bytes of any column, and each of their elements has a byte of its own. -/
theorem decodeBlock_takes {payload : Bytes} {contents : List Contents}
    (decoded : Checked.decodeBlock payload = .ok contents)
    (sized : payload.length < usizeBound) :
    ∃ manifest, Manifest.parse payload = .ok manifest ∧ contents.length = manifest.records ∧
      ContentsFitFrom {} contents ∧
      (∀ column, (contentsParts {} contents column).length ≤
        (columnOf manifest.columns manifest.statCols column).length) ∧
      (contents.map Contents.elements).sum ≤ manifest.columns.flatten.length := by
  obtain ⟨manifest, parsed, rest⟩ := bind_eq_ok.mp decoded
  rw [Checked.parse_eq sized] at parsed
  have parsed := returns_eq_ok parsed
  obtain ⟨facts⟩ := parse_inv parsed
  obtain ⟨cols, opened, rest⟩ := bind_eq_ok.mp rest
  rw [Checked.newReaders_eq facts.columns_length facts.columns_small] at opened
  cases opened
  obtain ⟨⟨records, later⟩, run, rest⟩ := bind_eq_ok.mp rest
  obtain ⟨_, _, built⟩ := bind_eq_ok.mp rest
  cases built
  obtain ⟨_, ⟨count, fits, pieces, enough, rfl⟩, paid⟩ := decodeRecords_takes _ _ _ _ _ _ run
  rw [start_left] at paid
  refine ⟨manifest, parsed, count, fits, fun column => ?_, ?_⟩
  · exact Nat.le_trans (Nat.le_add_right ..) (paid.1 column)
  · exact Nat.le_trans enough (Nat.le_trans (Nat.le_add_right ..) paid.2)

/-- **The decoder is total on hostile input.** On every byte string it returns
without a panic what the model of it returns, and the records that it returns,
with all that they contain, are no more than the bytes of the payload. -/
theorem decodeBlock_total {payload : Bytes} (sized : payload.length < usizeBound) :
    Checked.decodeBlock payload ≠ .error .panic ∧
      (Checked.decodeBlock payload).map (List.map Contents.encodeToVec) =
        returns (decodeBlock payload) ∧
      ∀ contents, Checked.decodeBlock payload = .ok contents →
        (contents.map Contents.elements).sum ≤ payload.length := by
  have same := decodeBlock_checked sized
  refine ⟨fun panicked => ?_, same, fun contents decoded => ?_⟩
  · rw [panicked] at same
    cases result : decodeBlock payload <;> rw [result] at same <;> cases same
  · obtain ⟨manifest, parsed, -, -, -, few⟩ := decodeBlock_takes decoded sized
    obtain ⟨facts⟩ := parse_inv parsed
    have whole := facts.whole
    rw [facts.same, List.length_flatten, slices_lengths _ _ (Nat.le_of_eq whole)] at few
    omega

/-- A block of one record whose fields are all zero. -/
def smallBlock : Bytes :=
  magic ++ [version, 1, 0, 0] ++
    Col.all.map (fun col => if col ∈ [.schema, .gidD, .platLen, .queue, .startD, .dur, .blue,
      .gvLen, .pmaj, .pmin, .bansN, .nparts, .tlPresent] then 1 else 0) ++ List.replicate 13 0

/-- The block decodes to its record, which is fewer than its bytes. -/
theorem decodeBlock_total_small :
    (Checked.decodeBlock smallBlock).toOption.map List.length = some 1 ∧
      ∀ contents, Checked.decodeBlock smallBlock = .ok contents →
        (contents.map Contents.elements).sum ≤ smallBlock.length :=
  ⟨by decide +kernel, (decodeBlock_total (by decide)).2.2⟩

end LolCrawler.Columnar
