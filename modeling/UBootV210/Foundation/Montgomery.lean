import Mathlib

/-! # Montgomery multiplication

Each digit of one factor is multiplied in and a multiple of the modulus is added
that makes the lowest digit zero, so that only divisions by the base are left. The
results are kept below a power of the base and not below the modulus. -/

namespace UBootV210.Montgomery

/-- A modulus of a number of digits, with its negated inverse modulo the base. -/
structure Reduction (base : Nat) where
  modulus : Nat
  inverse : Nat
  digits : Nat
  inverts : base ∣ modulus * inverse + 1
  modulus_lt : modulus < base ^ digits

variable {base : Nat}

variable {reduction : Reduction base} {digits : List Nat}

namespace Reduction

def range (reduction : Reduction base) : Nat := base ^ reduction.digits

/-- The multiple of the modulus that clears the lowest digit of a number. -/
def quotient (reduction : Reduction base) (number : Nat) : Nat :=
  number % base * reduction.inverse % base

def reduce (reduction : Reduction base) (number : Nat) : Nat :=
  (number + reduction.quotient number * reduction.modulus) / base

/-- A result leaves the range by less than the modulus. -/
def confine (reduction : Reduction base) (number : Nat) : Nat :=
  if reduction.range ≤ number then number - reduction.modulus else number

def addStep (reduction : Reduction base) (number result digit : Nat) : Nat :=
  reduction.confine (reduction.reduce (result + digit * number))

def product (reduction : Reduction base) (digits : List Nat) (number : Nat) : Nat :=
  digits.foldl (reduction.addStep number) 0

/-! ## One digit -/

section Step

variable {reduction : Reduction base} {number result digit sum : Nat}

theorem dvd_add_quotient (sum : Nat) : base ∣ sum + reduction.quotient sum * reduction.modulus := by
  apply Nat.modEq_zero_iff_dvd.mp
  calc sum + reduction.quotient sum * reduction.modulus
      ≡ sum + sum * reduction.inverse * reduction.modulus [MOD base] := by
        apply Nat.ModEq.add_left
        apply Nat.ModEq.mul_right
        exact (Nat.mod_modEq _ _).trans ((Nat.mod_modEq _ _).mul_right _)
    _ = sum * (reduction.modulus * reduction.inverse + 1) := by ring
    _ ≡ 0 [MOD base] := Nat.modEq_zero_iff_dvd.mpr (reduction.inverts.mul_left sum)

theorem reduce_mul (sum : Nat) :
    reduction.reduce sum * base = sum + reduction.quotient sum * reduction.modulus :=
  Nat.div_mul_cancel (reduction.dvd_add_quotient sum)

theorem quotient_lt (positive : 0 < base) : reduction.quotient sum < base :=
  Nat.mod_lt _ positive

theorem reduce_lt (positive : 0 < base) (result_lt : result < reduction.range)
    (digit_lt : digit < base) (number_lt : number < reduction.range) :
    reduction.reduce (result + digit * number) < reduction.range + reduction.modulus := by
  have added := reduction.reduce_mul (result + digit * number)
  have quotient_le : reduction.quotient (result + digit * number) ≤ base - 1 :=
    Nat.le_sub_one_of_lt (reduction.quotient_lt positive)
  have multiple : reduction.quotient (result + digit * number) * reduction.modulus ≤
      base * reduction.modulus :=
    Nat.mul_le_mul_right _ (quotient_le.trans (Nat.sub_le _ _))
  have rest : digit * number ≤ (base - 1) * reduction.range :=
    Nat.mul_le_mul (Nat.le_sub_one_of_lt digit_lt) number_lt.le
  have whole : (base - 1) * reduction.range + reduction.range = base * reduction.range := by
    rw [← Nat.succ_mul, Nat.succ_eq_add_one, Nat.sub_add_cancel positive]
  apply lt_of_mul_lt_mul_right _ (Nat.zero_le base)
  calc reduction.reduce (result + digit * number) * base
      < base * reduction.range + base * reduction.modulus := by omega
    _ = (reduction.range + reduction.modulus) * base := by ring

theorem confine_modEq (sum : Nat) : reduction.confine sum ≡ sum [MOD reduction.modulus] := by
  have modulus_lt : reduction.modulus < reduction.range := reduction.modulus_lt
  rw [confine]
  split
  case isTrue beyond =>
    have fits : reduction.modulus ≤ sum := modulus_lt.le.trans beyond
    calc sum - reduction.modulus
        ≡ sum - reduction.modulus + reduction.modulus [MOD reduction.modulus] := by
          simp [Nat.ModEq]
      _ = sum := Nat.sub_add_cancel fits
  case isFalse inside => rfl

theorem confine_eq_zero_iff : reduction.confine sum = 0 ↔ sum = 0 := by
  have modulus_lt : reduction.modulus < reduction.range := reduction.modulus_lt
  rw [confine]
  split <;> omega

theorem reduce_eq_zero_iff (positive : 0 < base) : reduction.reduce sum = 0 ↔ sum = 0 := by
  have added := reduction.reduce_mul sum
  constructor
  · intro zero
    rw [zero, Nat.zero_mul] at added
    exact (Nat.add_eq_zero_iff.mp added.symm).1
  · intro zero
    rw [zero, quotient, Nat.zero_mod, Nat.zero_mul, Nat.zero_mod, Nat.zero_mul]
      at added
    rw [zero]
    exact (Nat.mul_eq_zero.mp added).resolve_right positive.ne'

theorem addStep_modEq : reduction.addStep number result digit * base ≡ result + digit * number
      [MOD reduction.modulus] := by
  calc reduction.addStep number result digit * base
      ≡ reduction.reduce (result + digit * number) * base [MOD reduction.modulus] :=
        (confine_modEq _).mul_right base
    _ = result + digit * number +
          reduction.quotient (result + digit * number) * reduction.modulus := reduce_mul _
    _ ≡ result + digit * number [MOD reduction.modulus] := by
        simp [Nat.ModEq]

theorem addStep_eq_zero_iff (positive : 0 < base) :
    reduction.addStep number result digit = 0 ↔ result = 0 ∧ (digit = 0 ∨ number = 0) := by
  rw [addStep, confine_eq_zero_iff, reduce_eq_zero_iff positive, Nat.add_eq_zero_iff,
    Nat.mul_eq_zero]

end Step

section Product

variable {reduction : Reduction base} {number result : Nat} {digits : List Nat}

theorem foldl_addStep_modEq :
    digits.foldl (reduction.addStep number) result * base ^ digits.length ≡
      result + Nat.ofDigits base digits * number [MOD reduction.modulus] := by
  induction digits generalizing result with
  | nil => simp [Nat.ModEq]
  | cons digit digits induction =>
    have first : reduction.addStep number result digit * base ≡ result + digit * number
        [MOD reduction.modulus] := addStep_modEq
    calc (digit :: digits).foldl (reduction.addStep number) result * base ^ (digit :: digits).length
        = digits.foldl (reduction.addStep number) (reduction.addStep number result digit) *
            base ^ digits.length * base := by
          rw [List.foldl_cons, List.length_cons, Nat.pow_succ, Nat.mul_assoc]
      _ ≡ (reduction.addStep number result digit + Nat.ofDigits base digits * number) * base
            [MOD reduction.modulus] := induction.mul_right base
      _ = reduction.addStep number result digit * base +
            base * Nat.ofDigits base digits * number := by ring
      _ ≡ result + digit * number + base * Nat.ofDigits base digits * number
            [MOD reduction.modulus] := first.add_right _
      _ = result + Nat.ofDigits base (digit :: digits) * number := by
          rw [Nat.ofDigits_cons]
          ring

theorem foldl_addStep_eq_zero_iff (positive : 0 < base) :
    digits.foldl (reduction.addStep number) result = 0 ↔
      result = 0 ∧ (Nat.ofDigits base digits = 0 ∨ number = 0) := by
  induction digits generalizing result with
  | nil => simp
  | cons digit digits induction =>
    rw [List.foldl_cons, induction, addStep_eq_zero_iff positive, Nat.ofDigits_cons,
      Nat.add_eq_zero_iff, Nat.mul_eq_zero]
    have nonzero := positive.ne'
    tauto

theorem product_eq_zero_iff (positive : 0 < base) :
    reduction.product digits number = 0 ↔ Nat.ofDigits base digits = 0 ∨ number = 0 := by
  rw [product, foldl_addStep_eq_zero_iff positive]
  exact and_iff_right rfl

theorem product_modEq (sized : digits.length = reduction.digits) :
    reduction.product digits number * reduction.range ≡ Nat.ofDigits base digits * number
      [MOD reduction.modulus] := by
  have folded : digits.foldl (reduction.addStep number) 0 * base ^ digits.length ≡
      0 + Nat.ofDigits base digits * number [MOD reduction.modulus] := foldl_addStep_modEq
  rw [sized, Nat.zero_add] at folded
  exact folded

end Product

/-- A number stands for its quotient by the range. -/
def Represents (reduction : Reduction base) (value number : Nat) : Prop :=
  number ≡ value * reduction.range [MOD reduction.modulus]

theorem coprime (reduction : Reduction base) : reduction.modulus.gcd reduction.range = 1 := by
  apply Nat.Coprime.pow_right
  apply Nat.Coprime.symm
  apply Nat.Coprime.of_dvd_left reduction.inverts
  rw [Nat.add_comm]
  exact (Nat.coprime_add_mul_left_left _ _ _).mpr (Nat.coprime_one_left _)

theorem Represents.product (first : reduction.Represents left (Nat.ofDigits base digits))
    (second : reduction.Represents right number) (sized : digits.length = reduction.digits) :
    reduction.Represents (left * right) (reduction.product digits number) := by
  apply Nat.ModEq.cancel_right_of_coprime reduction.coprime
  calc reduction.product digits number * reduction.range
      ≡ Nat.ofDigits base digits * number [MOD reduction.modulus] := product_modEq sized
    _ ≡ left * reduction.range * (right * reduction.range) [MOD reduction.modulus] :=
        first.mul second
    _ = left * right * reduction.range * reduction.range := by ring

/-- A number enters Montgomery form through the square of the range. -/
theorem represents_enter (squared : square ≡ reduction.range ^ 2 [MOD reduction.modulus])
    (sized : digits.length = reduction.digits) :
    reduction.Represents (Nat.ofDigits base digits) (reduction.product digits square) := by
  apply Nat.ModEq.cancel_right_of_coprime reduction.coprime
  calc reduction.product digits square * reduction.range
      ≡ Nat.ofDigits base digits * square [MOD reduction.modulus] := product_modEq sized
    _ ≡ Nat.ofDigits base digits * reduction.range ^ 2 [MOD reduction.modulus] :=
        squared.mul_left _
    _ = Nat.ofDigits base digits * reduction.range * reduction.range := by ring

/-- A product with a plain number leaves Montgomery form. -/
theorem Represents.leave (represents : reduction.Represents value (Nat.ofDigits base digits))
    (sized : digits.length = reduction.digits) :
    reduction.product digits number ≡ value * number [MOD reduction.modulus] := by
  apply Nat.ModEq.cancel_right_of_coprime reduction.coprime
  calc reduction.product digits number * reduction.range
      ≡ Nat.ofDigits base digits * number [MOD reduction.modulus] := product_modEq sized
    _ ≡ value * reduction.range * number [MOD reduction.modulus] := represents.mul_right number
    _ = value * number * reduction.range := by ring

end Reduction

end UBootV210.Montgomery
