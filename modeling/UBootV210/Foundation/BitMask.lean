import Mathlib

/-! # Masks for powers of two

What masking with a power of two minus one, or with its complement, does to the
number that a machine word stands for. -/

namespace UBootV210.BitMask

theorem and_complement (narrow : low ≤ width) :
    value &&& (2 ^ width - 1 - (2 ^ low - 1)) = value % 2 ^ width / 2 ^ low * 2 ^ low := by
  have mask : 2 ^ width - 1 - (2 ^ low - 1) = (2 ^ (width - low) - 1) * 2 ^ low := by
    have positive := Nat.two_pow_pos low
    have split : 2 ^ width = 2 ^ (width - low) * 2 ^ low := by
      rw [← Nat.pow_add, Nat.sub_add_cancel narrow]
    rw [Nat.sub_mul, Nat.one_mul]
    omega
  apply Nat.eq_of_testBit_eq
  intro index
  rw [mask, Nat.testBit_and, Nat.testBit_mul_two_pow, Nat.testBit_two_pow_sub_one,
    Nat.testBit_mul_two_pow, Nat.testBit_div_two_pow, Nat.testBit_mod_two_pow]
  by_cases above : low ≤ index
  · rw [Nat.sub_add_cancel above]
    have bound : index - low < width - low ↔ index < width := by omega
    simp only [above, bound, decide_true, Bool.true_and]
    exact Bool.and_comm ..
  · simp [above]

theorem or_and_self (value mask : UInt32) : (value ||| mask) &&& mask = mask := by
  apply UInt32.toBitVec_inj.mp
  ext index
  simp only [UInt32.toBitVec_and, UInt32.toBitVec_or, BitVec.getElem_and, BitVec.getElem_or]
  grind

theorem and_not_and_self {value mask : UInt32} : (value &&& ~~~mask) &&& mask = 0 := by
  apply UInt32.toBitVec_inj.mp
  ext index
  simp

theorem or_and_of_disjoint {value : UInt32} (disjoint : other &&& mask = 0) :
    (value ||| other) &&& mask = value &&& mask := by
  apply UInt32.toBitVec_inj.mp
  ext index inside
  have clear := congrArg (fun word => word.toBitVec.getLsbD index) disjoint
  simp only [UInt32.toBitVec_and, BitVec.getLsbD_and, UInt32.toBitVec_ofNat, BitVec.getLsbD_zero]
    at clear
  simp only [UInt32.toBitVec_and, UInt32.toBitVec_or, ← BitVec.getLsbD_eq_getElem,
    BitVec.getLsbD_and, BitVec.getLsbD_or]
  grind

theorem toNat_byte {value shift : UInt32} (inside : shift.toNat < 32) :
    ((value >>> shift) &&& 0xff).toUInt8.toNat = value.toNat / 2 ^ shift.toNat % 256 := by
  rw [UInt32.toNat_toUInt8, UInt32.toNat_and, UInt32.toNat_shiftRight,
    Nat.mod_eq_of_lt inside, Nat.shiftRight_eq_div_pow, show UInt32.toNat 0xff = 2 ^ 8 - 1 from rfl,
    Nat.and_two_pow_sub_one_eq_mod, Nat.mod_mod]

section

variable {size : UInt32} {width : Nat} (power : size.toNat = 2 ^ width)
include power

theorem width_lt : width < 32 := by
  have bound := size.toNat_lt
  rw [power] at bound
  exact (Nat.pow_lt_pow_iff_right (by decide)).mp bound

theorem toNat_sub_one : (size - 1).toNat = 2 ^ width - 1 := by
  have positive := Nat.two_pow_pos width
  rw [UInt32.toNat_sub_of_le, power]
  · rfl
  · rw [UInt32.le_iff_toNat_le, power]
    exact positive

theorem toNat_and_low : (address &&& (size - 1).toUInt64).toNat = address.toNat % size.toNat := by
  rw [UInt64.toNat_and, UInt32.toNat_toUInt64, toNat_sub_one power,
    Nat.and_two_pow_sub_one_eq_mod, power]

theorem toNat_and_high (address : UInt64) :
    (address &&& ~~~(size - 1).toUInt64).toNat = address.toNat / size.toNat * size.toNat := by
  have narrow : width ≤ 64 := (width_lt power).le.trans (by decide)
  have complement : (~~~(size - 1).toUInt64).toNat = 2 ^ 64 - 1 - (2 ^ width - 1) := by
    rw [UInt64.toNat_not, UInt32.toNat_toUInt64, toNat_sub_one power]
    rfl
  rw [UInt64.toNat_and, complement, and_complement narrow, Nat.mod_eq_of_lt address.toNat_lt, power]

/-- The mask of 32 bits also clears the upper half of the address. -/
theorem toNat_and_high32 (address : UInt64) : (address &&& (~~~(size - 1)).toUInt64).toNat =
      address.toNat % 2 ^ 32 / size.toNat * size.toNat := by
  have complement : (~~~(size - 1)).toUInt64.toNat = 2 ^ 32 - 1 - (2 ^ width - 1) := by
    rw [UInt32.toNat_toUInt64, UInt32.toNat_not, toNat_sub_one power]
    rfl
  rw [UInt64.toNat_and, complement, and_complement (width_lt power).le, power]

theorem toNat_and_high_word (address : UInt32) :
    (address &&& ~~~(size - 1)).toNat = address.toNat / size.toNat * size.toNat := by
  have complement : (~~~(size - 1)).toNat = 2 ^ 32 - 1 - (2 ^ width - 1) := by
    rw [UInt32.toNat_not, toNat_sub_one power]
    rfl
  rw [UInt32.toNat_and, complement, and_complement (width_lt power).le,
    Nat.mod_eq_of_lt address.toNat_lt, power]

end

end UBootV210.BitMask
