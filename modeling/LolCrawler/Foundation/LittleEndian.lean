import Mathlib.Algebra.Group.Nat.Defs
import LolCrawler.Foundation.Errors

/-! # Little-endian numbers

`toLe width value` is the value modulo `256 ^ width` in `width` bytes, and `ofLe`
reads a number back.
-/

namespace Foundation

/-- `to_le_bytes`. -/
def toLe : Nat → Nat → Bytes
  | 0, _ => []
  | width + 1, value => .ofNat (value % 256) :: toLe width (value / 256)

/-- `from_le_bytes`. -/
def ofLe : Bytes → Nat
  | [] => 0
  | byte :: bytes => byte.toNat + 256 * ofLe bytes

@[simp] theorem toLe_length (width : Nat) : ∀ value, (toLe width value).length = width := by
  induction width with
  | zero => exact fun _ => rfl
  | succ width ih => exact fun value => congrArg (· + 1) (ih (value / 256))

theorem ofLe_toLe (width : Nat) : ∀ value, ofLe (toLe width value) = value % 256 ^ width := by
  induction width with
  | zero => exact fun value => (Nat.mod_one value).symm
  | succ width ih =>
      intro value
      rw [toLe, ofLe, ih, UInt8.toNat_ofNat', Nat.mod_mod, Nat.pow_succ, Nat.mul_comm (256 ^ width),
        Nat.mod_mul]

theorem ofLe_toLe_of_lt {width value : Nat} (small : value < 256 ^ width) :
    ofLe (toLe width value) = value := by
  rw [ofLe_toLe, Nat.mod_eq_of_lt small]

theorem ofLe_lt : ∀ bytes : Bytes, ofLe bytes < 256 ^ bytes.length
  | [] => Nat.one_pos
  | byte :: bytes => by
      have rest := ofLe_lt bytes
      have head := byte.toNat_lt
      rw [ofLe, List.length_cons, Nat.pow_succ]
      omega

end Foundation
