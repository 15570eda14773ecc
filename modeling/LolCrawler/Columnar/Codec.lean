import Mathlib.Tactic.Ring
import LolCrawler.Foundation.Errors

/-! # Varints, zigzag and deltas of the columnar codec

The scalar layer of the block transform: base-128 varints, the zigzag map of
signed deltas, and the range checks on both sides. `usize` is 64 bits wide.
-/

namespace LolCrawler.Columnar

open Foundation

/-- The loop of `write_varint`. Ten rounds shift a `u64` down to zero
(`writeVarintLoop_read`), so the first equation is never reached. -/
def writeVarintLoop : Nat → UInt64 → Bytes
  | 0, _ => []
  | rounds + 1, value =>
      let byte := (value &&& 0x7f).toUInt8
      let value := value >>> 7
      if value = 0 then [byte] else (byte ||| 0x80) :: writeVarintLoop rounds value

/-- The bytes `write_varint` appends. -/
def writeVarint (value : UInt64) : Bytes := writeVarintLoop 10 value

/-- The loop of `read_varint_at`, with the rounds left; `idx` is `9 - rounds`. -/
def readVarintLoop (bytes : Bytes) (name : String) :
    Nat → Nat → UInt64 → Except Error (UInt64 × Nat)
  | 0, _, _ => bail s!"varint too long in {name}"
  | rounds + 1, pos, out =>
      if _ : pos < bytes.length then
        let byte := bytes[pos]
        if rounds = 0 ∧ byte &&& 0xfe ≠ 0 then bail s!"varint overflow in {name}"
        else
          let out := out ||| ((byte &&& 0x7f).toUInt64 <<< UInt64.ofNat ((9 - rounds) * 7))
          if byte &&& 0x80 = 0 then .ok (out, pos + 1)
          else readVarintLoop bytes name rounds (pos + 1) out
      else bail s!"truncated varint in {name}"

/-- `read_varint_at`: the value and the position after it. -/
def readVarintAt (bytes : Bytes) (pos : Nat) (name : String) : Except Error (UInt64 × Nat) :=
  readVarintLoop bytes name 10 pos 0

def zigzagI64 (value : Int64) : UInt64 :=
  (value.toUInt64 <<< 1) ^^^ (value >>> 63).toUInt64

def unzigzagI64 (value : UInt64) : Int64 :=
  (value >>> 1).toInt64 ^^^ -(value &&& 1).toInt64

/-- `usize` is 64 bits wide. -/
def usizeBound : Nat := 2 ^ 64

def checkedAdd (a b : Nat) : Option Nat := if a + b < usizeBound then some (a + b) else none

def toUsize (value : UInt64) (name : String) : Except Error Nat :=
  if value.toNat < usizeBound then .ok value.toNat else bail s!"{name} does not fit in usize"

def readU32 (value : UInt64) (name : String) : Except Error UInt32 :=
  if value.toNat < 2 ^ 32 then .ok value.toUInt32 else bail s!"{name} exceeds u32 range"

/-- `i64::try_from` on an `i128`. -/
def FitsI64 (value : Int) : Prop := -2 ^ 63 ≤ value ∧ value < 2 ^ 63

instance (value : Int) : Decidable (FitsI64 value) := inferInstanceAs (Decidable (_ ∧ _))

def deltaU64 (value prev : UInt64) (name : String) : Except Error Int64 :=
  let delta : Int := value.toNat - prev.toNat
  if FitsI64 delta then .ok (.ofInt delta) else bail s!"{name} delta exceeds i64 range"

def addDeltaU64 (prev : UInt64) (delta : Int64) (name : String) : Except Error UInt64 :=
  let value : Int := prev.toNat + delta.toInt
  if 0 ≤ value ∧ value < 2 ^ 64 then .ok (.ofNat value.toNat)
  else bail s!"{name} delta reconstructs outside u64 range"

def deltaI64 (value prev : Int64) (name : String) : Except Error Int64 :=
  let delta : Int := value.toInt - prev.toInt
  if FitsI64 delta then .ok (.ofInt delta) else bail s!"{name} delta exceeds i64 range"

def addDeltaI64 (prev delta : Int64) (name : String) : Except Error Int64 :=
  let value : Int := prev.toInt + delta.toInt
  if FitsI64 value then .ok (.ofInt value)
  else bail s!"{name} delta reconstructs outside i64 range"

/-- `value as i64 - prev as i64` on two `u32`s. -/
def deltaU32 (value prev : UInt32) : Int64 := .ofInt (value.toNat - prev.toNat)

def addDeltaU32 (prev : UInt32) (delta : Int64) (name : String) : Except Error UInt32 :=
  let value : Int := prev.toNat + delta.toInt
  if 0 ≤ value ∧ value < 2 ^ 32 then .ok (.ofNat value.toNat)
  else bail s!"{name} delta reconstructs outside u32 range"

/-! ## Varints -/

/-- A round writes a byte. -/
theorem writeVarintLoop_ne_nil (rounds : Nat) (value : UInt64) :
    writeVarintLoop (rounds + 1) value ≠ [] := by
  unfold writeVarintLoop
  simp only
  split <;> exact List.cons_ne_nil _ _

/-- A varint is not empty. -/
theorem writeVarint_ne_nil (value : UInt64) : writeVarint value ≠ [] :=
  writeVarintLoop_ne_nil 9 value

/-- A varint has a byte at least. -/
theorem writeVarint_length_pos (value : UInt64) : 0 < (writeVarint value).length :=
  List.length_pos_iff.mpr (writeVarint_ne_nil value)

/-- A payload byte with and without its continuation bit. -/
theorem payload_bits : ∀ low : Fin 128,
    ((UInt8.ofNat low &&& 0x7f).toNat = low ∧ UInt8.ofNat low &&& 0x80 = 0) ∧
      ((UInt8.ofNat low ||| 0x80) &&& 0x7f).toNat = low ∧
      (UInt8.ofNat low ||| 0x80) &&& 0x80 ≠ 0 := by
  decide +kernel

/-- The low byte of a value. -/
theorem low_eq (value : UInt64) :
    (value &&& 0x7f).toUInt8 = UInt8.ofNat (value.toNat % 128) := by
  apply UInt8.toNat_inj.mp
  rw [UInt64.toNat_toUInt8, UInt64.toNat_and, UInt8.toNat_ofNat']
  change (value.toNat &&& 2 ^ 7 - 1) % 256 = _
  rw [Nat.and_two_pow_sub_one_eq_mod]

/-- What is left of a value. -/
theorem shift_toNat (value : UInt64) : (value >>> 7).toNat = value.toNat / 128 := by
  rw [UInt64.toNat_shiftRight]
  exact Nat.shiftRight_eq_div_pow ..

/-- Seven more bits above those read so far. -/
theorem or_shift_toNat {out : UInt64} {payload : UInt8} {idx : Nat} (inside : idx ≤ 9)
    (low : out.toNat < 128 ^ idx) (fits : payload.toNat * 128 ^ idx < 2 ^ 64) :
    (out ||| (payload.toUInt64 <<< UInt64.ofNat (idx * 7))).toNat =
      out.toNat + payload.toNat * 128 ^ idx := by
  have power : 128 ^ idx = 2 ^ (idx * 7) := by
    rw [Nat.mul_comm, Nat.pow_mul]
  rw [power] at low fits ⊢
  rw [UInt64.toNat_or, UInt64.toNat_shiftLeft, UInt64.toNat_ofNat', UInt8.toNat_toUInt64,
    Nat.mod_eq_of_lt (by omega : idx * 7 < 2 ^ 64), Nat.mod_eq_of_lt (by omega : idx * 7 < 64),
    Nat.shiftLeft_eq, Nat.mod_eq_of_lt fits, Nat.or_comm, Nat.mul_comm,
    ← Nat.two_pow_add_eq_or_of_lt low, Nat.add_comm]

/-- The byte at a position, read off what is left there. -/
theorem of_drop_eq_cons {α : Type} {list tail : List α} {head : α} {pos : Nat}
    (left : list.drop pos = head :: tail) :
    ∃ inside : pos < list.length, list[pos] = head ∧ list.drop (pos + 1) = tail := by
  have inside : pos < list.length := by
    have length := congrArg List.length left
    rw [List.length_drop, List.length_cons] at length
    omega
  rw [List.drop_eq_getElem_cons inside, List.cons.injEq] at left
  exact ⟨inside, left⟩

/-- Low bits of the last round's byte. -/
theorem last_bits : ∀ low : Fin 2, UInt8.ofNat low &&& 0xfe = 0 := by decide

/-- The writer's byte for the value left, with or without a continuation. -/
theorem payload_of_low (value : UInt64) :
    (((value &&& 0x7f).toUInt8 &&& 0x7f).toNat = value.toNat % 128 ∧
        (value &&& 0x7f).toUInt8 &&& 0x80 = 0) ∧
      (((value &&& 0x7f).toUInt8 ||| 0x80) &&& 0x7f).toNat = value.toNat % 128 ∧
      ((value &&& 0x7f).toUInt8 ||| 0x80) &&& 0x80 ≠ 0 := by
  rw [low_eq]
  exact payload_bits ⟨value.toNat % 128, Nat.mod_lt _ (by decide)⟩

section Read

variable {bytes rest : Bytes} {rounds idx pos : Nat} {value out : UInt64} (name : String)

/-- The reader stops at a byte without continuation bit. -/
theorem readVarintLoop_last (count : rounds + 1 + idx = 10) (small : value.toNat < 128)
    (fits : value.toNat * 128 ^ idx < 2 ^ 64) (low : out.toNat < 128 ^ idx)
    (left : bytes.drop pos = (value &&& 0x7f).toUInt8 :: rest) :
    ∃ result : UInt64, result.toNat = out.toNat + value.toNat * 128 ^ idx ∧
      readVarintLoop bytes name (rounds + 1) pos out = .ok (result, pos + 1) := by
  obtain ⟨⟨payload, stop⟩, _⟩ := payload_of_low value
  obtain ⟨inside, head, _⟩ := of_drop_eq_cons left
  rw [Nat.mod_eq_of_lt small] at payload
  have fine : ¬ (rounds = 0 ∧ (value &&& 0x7f).toUInt8 &&& 0xfe ≠ 0) := by
    rintro ⟨rfl, high⟩
    obtain rfl : idx = 9 := by omega
    have bit : value.toNat < 2 := by omega
    rw [low_eq, Nat.mod_eq_of_lt small] at high
    exact high (last_bits ⟨value.toNat, bit⟩)
  have shift : 9 - rounds = idx := by omega
  rw [← payload] at fits ⊢
  refine ⟨_, or_shift_toNat (by omega) low fits, ?_⟩
  simp only [readVarintLoop, inside, head, fine, stop, shift, ↓reduceDIte, ↓reduceIte]

/-- The reader goes on at a byte with continuation bit. -/
theorem readVarintLoop_next (count : rounds + 2 + idx = 10)
    (fits : value.toNat % 128 * 128 ^ idx < 2 ^ 64) (low : out.toNat < 128 ^ idx)
    (left : bytes.drop pos = ((value &&& 0x7f).toUInt8 ||| 0x80) :: rest) :
    ∃ next : UInt64, next.toNat = out.toNat + value.toNat % 128 * 128 ^ idx ∧
      readVarintLoop bytes name (rounds + 2) pos out =
        readVarintLoop bytes name (rounds + 1) (pos + 1) next := by
  obtain ⟨_, payload, goes⟩ := payload_of_low value
  obtain ⟨inside, head, _⟩ := of_drop_eq_cons left
  have shift : 9 - (rounds + 1) = idx := by omega
  rw [← payload] at fits ⊢
  refine ⟨_, or_shift_toNat (by omega) low fits, ?_⟩
  rw [readVarintLoop]
  simp only [inside, head, goes, shift, Nat.add_one_ne_zero, false_and, ↓reduceDIte, ↓reduceIte]

end Read

/-- Reading back what the writer appended, from the middle of a value on. The
value left and the bits read so far are those of one `u64`. -/
theorem readVarintLoop_write (bytes rest : Bytes) (name : String) (rounds : Nat) :
    ∀ (idx pos : Nat) (value out : UInt64), rounds + 1 + idx = 10 →
      value.toNat * 128 ^ idx < 2 ^ 64 → out.toNat < 128 ^ idx →
      bytes.drop pos = writeVarintLoop (rounds + 1) value ++ rest →
      ∃ result : UInt64, result.toNat = out.toNat + value.toNat * 128 ^ idx ∧
        readVarintLoop bytes name (rounds + 1) pos out =
          .ok (result, pos + (writeVarintLoop (rounds + 1) value).length) := by
  induction rounds with
  | zero =>
      intro idx pos value out count fits low left
      obtain rfl : idx = 9 := by omega
      have small : value >>> 7 = 0 := by
        apply UInt64.toNat_inj.mp
        rw [shift_toNat]
        exact Nat.div_eq_of_lt (by omega)
      have written : writeVarintLoop 1 value = [(value &&& 0x7f).toUInt8] := by
        simp only [writeVarintLoop, small, ↓reduceIte]
      rw [Nat.zero_add, written] at left ⊢
      exact readVarintLoop_last name count (by omega) fits low left
  | succ rounds ih =>
      intro idx pos value out count fits low left
      by_cases small : value >>> 7 = 0
      · have written : writeVarintLoop (rounds + 2) value = [(value &&& 0x7f).toUInt8] := by
          rw [writeVarintLoop]
          simp only [small, ↓reduceIte]
        have below : value.toNat / 128 = 0 := (shift_toNat value).symm.trans (congrArg _ small)
        rw [written] at left ⊢
        exact readVarintLoop_last name count (by omega) fits low left
      · have written : writeVarintLoop (rounds + 2) value =
            ((value &&& 0x7f).toUInt8 ||| 0x80) :: writeVarintLoop (rounds + 1) (value >>> 7) := by
          rw [writeVarintLoop]
          simp only [small, ↓reduceIte]
        rw [written] at left ⊢
        have split := Nat.div_add_mod value.toNat 128
        have scaled : value.toNat * 128 ^ idx =
            value.toNat % 128 * 128 ^ idx + (value >>> 7).toNat * 128 ^ (idx + 1) := by
          rw [shift_toNat, Nat.pow_succ]
          conv => lhs; rw [← split]
          ring
        obtain ⟨next, bits, read⟩ := readVarintLoop_next name (by omega) (by omega) low left
        obtain ⟨inside, head, tail⟩ := of_drop_eq_cons left
        have wider : next.toNat < 128 ^ (idx + 1) := by
          have digit : value.toNat % 128 < 128 := Nat.mod_lt _ (by decide)
          have bound := Nat.mul_le_mul_right (128 ^ idx) (Nat.le_of_lt_succ digit)
          rw [Nat.pow_succ]
          omega
        obtain ⟨result, total, done⟩ :=
          ih (idx + 1) (pos + 1) (value >>> 7) next (by omega) (by omega) wider tail
        refine ⟨result, by omega, ?_⟩
        rw [read, done, List.length_cons, Nat.add_right_comm, Nat.add_assoc]

/-- **Varints read back.** Wherever a buffer holds what the writer appended, the
reader returns the value and steps past it. -/
theorem readVarintAt_write {bytes rest : Bytes} {pos : Nat} (value : UInt64) (name : String)
    (left : bytes.drop pos = writeVarint value ++ rest) :
    readVarintAt bytes pos name = .ok (value, pos + (writeVarint value).length) := by
  have fits : value.toNat * 128 ^ 0 < 2 ^ 64 := by
    rw [Nat.pow_zero, Nat.mul_one]
    exact value.toNat_lt
  obtain ⟨result, total, read⟩ :=
    readVarintLoop_write bytes rest name 9 0 pos value 0 rfl fits (by decide) left
  have same : result = value := by
    apply UInt64.toNat_inj.mp
    rw [total, Nat.pow_zero, Nat.mul_one]
    exact Nat.zero_add _
  exact same ▸ read

/-- Behind the first part is the rest. -/
theorem drop_add_length {α : Type} {list first rest : List α} {pos : Nat}
    (left : list.drop pos = first ++ rest) : list.drop (pos + first.length) = rest := by
  rw [← List.drop_drop, left, List.drop_left]

/-! ## Zigzag -/

/-- The sign spreads over all bits. -/
theorem neg_bit (value : BitVec 64) (i : Nat) (inside : i < 64) :
    (-(value &&& 1#64)).getLsbD i = value.getLsbD 0 := by
  have bit : value &&& 1#64 = if value.getLsbD 0 then 1#64 else 0#64 := by
    rw [BitVec.and_one_eq_setWidth_ofBool_getLsbD]
    cases value.getLsbD 0 <;> decide
  rw [bit]
  cases value.getLsbD 0 with
  | false => simp
  | true =>
      rw [if_pos rfl, show -1#64 = BitVec.allOnes 64 from by decide, BitVec.getLsbD_allOnes,
        decide_eq_true inside]

/-- The sign goes to bit 0, and flips the other bits. -/
theorem zigzagI64_bit (value : Int64) :
    (zigzagI64 value).toBitVec.getLsbD 0 = value.toBitVec.getLsbD 63 ∧
      ∀ i, i < 63 → (zigzagI64 value).toBitVec.getLsbD (i + 1) =
        (value.toBitVec.getLsbD i ^^ value.toBitVec.getLsbD 63) := by
  have zigzag : (zigzagI64 value).toBitVec =
      value.toBitVec <<< 1 ^^^ value.toBitVec.sshiftRight 63 := rfl
  rw [zigzag]
  constructor
  · rw [BitVec.getLsbD_xor, BitVec.getLsbD_shiftLeft, BitVec.getLsbD_sshiftRight]
    simp only [Nat.zero_lt_one, decide_true, Bool.not_true, Bool.and_false, Bool.false_and,
      Bool.false_xor, Nat.add_zero]
    rfl
  · intro i below
    rw [BitVec.getLsbD_xor, BitVec.getLsbD_shiftLeft, BitVec.getLsbD_sshiftRight,
      BitVec.msb_eq_getLsbD_last]
    rw [decide_eq_true (by omega : i + 1 < 64), decide_eq_false (by omega : ¬ i + 1 < 1),
      decide_eq_false (by omega : ¬ 64 ≤ i + 1), if_neg (by omega)]
    simp only [Bool.not_false, Bool.true_and, Nat.add_sub_cancel]

/-- A zigzag is undone. -/
theorem unzigzagI64_zigzagI64 (value : Int64) : unzigzagI64 (zigzagI64 value) = value := by
  obtain ⟨low, high⟩ := zigzagI64_bit value
  apply Int64.toBitVec_inj.mp
  apply BitVec.eq_of_getLsbD_eq
  intro i inside
  change ((zigzagI64 value).toBitVec >>> 1 ^^^ -((zigzagI64 value).toBitVec &&& 1#64)).getLsbD i = _
  rw [BitVec.getLsbD_xor, neg_bit _ _ inside, low, BitVec.getLsbD_ushiftRight, Nat.add_comm]
  by_cases last : i = 63
  · subst last
    rw [BitVec.getLsbD_of_ge _ _ (by decide), Bool.false_xor]
  · rw [high i (by omega), Bool.xor_assoc, Bool.xor_self, Bool.xor_false]

/-! ## Deltas -/

/-- A difference of `u64` values is taken if it fits. -/
theorem deltaU64_eq_ok {value prev : UInt64} {name : String} {delta : Int64} :
    deltaU64 value prev name = .ok delta ↔
      FitsI64 (value.toNat - prev.toNat) ∧ delta = .ofInt (value.toNat - prev.toNat) := by
  unfold deltaU64
  simp only
  split <;> simp [bail, *, eq_comm]

/-- A difference of `i64` values is taken if it fits. -/
theorem deltaI64_eq_ok {value prev : Int64} {name : String} {delta : Int64} :
    deltaI64 value prev name = .ok delta ↔
      FitsI64 (value.toInt - prev.toInt) ∧ delta = .ofInt (value.toInt - prev.toInt) := by
  unfold deltaI64
  simp only
  split <;> simp [bail, *, eq_comm]

/-- A difference of `u64` values that fits is added back. -/
theorem addDeltaU64_delta {value prev : UInt64} (fits : FitsI64 (value.toNat - prev.toNat))
    (name : String) :
    addDeltaU64 prev (.ofInt (value.toNat - prev.toNat)) name = .ok value := by
  have below := value.toNat_lt
  unfold addDeltaU64
  rw [Int64.toInt_ofInt_of_le fits.1 fits.2]
  have total : (prev.toNat : Int) + (value.toNat - prev.toNat) = value.toNat := by omega
  simp only [total, Int.toNat_natCast, UInt64.ofNat_toNat]
  rw [if_pos ⟨by omega, by omega⟩]

/-- A difference of `i64` values that fits is added back. -/
theorem addDeltaI64_delta {value prev : Int64} (fits : FitsI64 (value.toInt - prev.toInt))
    (name : String) :
    addDeltaI64 prev (.ofInt (value.toInt - prev.toInt)) name = .ok value := by
  unfold addDeltaI64
  rw [Int64.toInt_ofInt_of_le fits.1 fits.2]
  have total : prev.toInt + (value.toInt - prev.toInt) = value.toInt := by omega
  simp only [total, Int64.ofInt_toInt]
  rw [if_pos ⟨value.le_toInt, value.toInt_lt⟩]

/-- A difference of `u32` values is added back. -/
theorem addDeltaU32_delta (value prev : UInt32) (name : String) :
    addDeltaU32 prev (deltaU32 value prev) name = .ok value := by
  have below := value.toNat_lt
  have before := prev.toNat_lt
  unfold addDeltaU32 deltaU32
  rw [Int64.toInt_ofInt_of_le (by omega) (by omega)]
  have total : (prev.toNat : Int) + (value.toNat - prev.toNat) = value.toNat := by omega
  simp only [total, Int.toNat_natCast, UInt32.ofNat_toNat]
  rw [if_pos ⟨by omega, by omega⟩]

end LolCrawler.Columnar
