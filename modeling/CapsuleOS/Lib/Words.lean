import Mathlib.Tactic

/-!
# Fields of a word

A word put together from fields, most significant first, and the two ways in which a decoder takes it
apart: a shift with a mask gives one field, and a mask of the high bits compares what stands above a
position.
-/
namespace CapsuleOS.Lib

variable {w v : Nat}

theorem toNat_append_eq (hi : BitVec w) (lo : BitVec v) : (hi ++ lo).toNat = hi.toNat * 2 ^ v + lo.toNat := by
  rw [BitVec.toNat_append, ← Nat.shiftLeft_add_eq_or_of_lt lo.isLt, Nat.shiftLeft_eq]

/-- Putting a number above `k` bits. -/
theorem or_shiftLeft_eq {a : Nat} (b : Nat) {k : Nat} (small : a < 2 ^ k) : a ||| b <<< k = a + b * 2 ^ k := by
  rw [Nat.or_comm, ← Nat.shiftLeft_add_eq_or_of_lt small, Nat.shiftLeft_eq, Nat.add_comm]

/-- The field of `n` bits from bit `k` on. -/
theorem toNat_field (x : BitVec w) {k n : Nat} (fits : n < w) :
    ((x >>> k) &&& BitVec.ofNat w (2 ^ n - 1)).toNat = x.toNat / 2 ^ k % 2 ^ n := by
  have pos : 0 < 2 ^ n := Nat.two_pow_pos n
  have less : 2 ^ n < 2 ^ w := Nat.pow_lt_pow_right (by decide) fits
  have mask : (BitVec.ofNat w (2 ^ n - 1)).toNat = 2 ^ n - 1 := by
    rw [BitVec.toNat_ofNat, Nat.mod_eq_of_lt (by omega)]
  rw [BitVec.toNat_and, mask, BitVec.toNat_ushiftRight, Nat.and_two_pow_sub_one_eq_mod,
    Nat.shiftRight_eq_div_pow]

/-- The lowest field. -/
theorem toNat_lowField (x : BitVec w) {n : Nat} (fits : n < w) :
    (x &&& BitVec.ofNat w (2 ^ n - 1)).toNat = x.toNat % 2 ^ n := by
  have field := toNat_field x (k := 0) fits
  rwa [BitVec.ushiftRight_zero, pow_zero, Nat.div_one] at field

/-- A mask that keeps the bits from `k` on. -/
theorem toNat_highBits (x : BitVec w) {k : Nat} (fits : k ≤ w) :
    (x &&& BitVec.ofNat w (2 ^ w - 2 ^ k)).toNat = x.toNat / 2 ^ k * 2 ^ k := by
  have below : 2 ^ k ≤ 2 ^ w := Nat.pow_le_pow_right (by decide) fits
  have pos : 0 < 2 ^ k := Nat.two_pow_pos k
  have mask : (BitVec.ofNat w (2 ^ w - 2 ^ k)).toNat = (2 ^ (w - k) - 1) <<< k := by
    rw [BitVec.toNat_ofNat, Nat.mod_eq_of_lt (by omega), Nat.shiftLeft_eq, Nat.sub_mul, Nat.one_mul,
      ← pow_add, Nat.sub_add_cancel fits]
  have split : x.toNat / 2 ^ k * 2 ^ k = (x.toNat >>> k &&& (2 ^ (w - k) - 1)) <<< k := by
    have small : x.toNat / 2 ^ k < 2 ^ (w - k) := by
      rw [Nat.div_lt_iff_lt_mul pos, ← pow_add, Nat.sub_add_cancel fits]
      exact x.isLt
    rw [Nat.and_two_pow_sub_one_eq_mod, Nat.shiftRight_eq_div_pow, Nat.mod_eq_of_lt small, Nat.shiftLeft_eq]
  rw [BitVec.toNat_and, mask, split]
  apply Nat.eq_of_testBit_eq
  intro i
  simp only [Nat.testBit_and, Nat.testBit_shiftLeft, Nat.testBit_shiftRight]
  by_cases above : k ≤ i
  · simp [above]
  · simp [above]

/-- The test of a decoder: the bits from `k` on are those of `c`. -/
theorem highBits_eq_iff (x : BitVec w) {k c : Nat} (fits : k ≤ w) (small : c * 2 ^ k < 2 ^ w) :
    x &&& BitVec.ofNat w (2 ^ w - 2 ^ k) = BitVec.ofNat w (c * 2 ^ k) ↔ x.toNat / 2 ^ k = c := by
  have pos : 0 < 2 ^ k := Nat.two_pow_pos k
  rw [← BitVec.toNat_inj, toNat_highBits x fits, BitVec.toNat_ofNat, Nat.mod_eq_of_lt small]
  exact Nat.mul_left_inj pos.ne'

/-- Bits that the mask clears are not in the result. -/
theorem and_ne_of_cleared {x mask c : BitVec w} (cleared : c &&& mask ≠ c) : x &&& mask ≠ c := by
  rintro rfl
  exact cleared (by rw [BitVec.and_assoc, BitVec.and_self])

end CapsuleOS.Lib
