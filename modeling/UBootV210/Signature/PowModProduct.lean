import UBootV210.Foundation.Montgomery
import UBootV210.Signature.PowModWords

/-! # The products of the exponentiation

With a key whose constants belong to its modulus the loops over words compute
Montgomery products of the numbers in the arrays. -/

namespace UBootV210.Signature

open CheckedMemory WordArray Montgomery

/-- A modulus that fills its words, with the constants of Montgomery multiplication. -/
structure RsaPublicKey.Valid (key : RsaPublicKey) : Prop where
  someWords : 1 ≤ key.len.toNat
  fewWords : key.len.toNat ≤ rsaMaxKeyBits / 32
  modulusLength : key.modulus.length = key.len.toNat
  rrLength : key.rr.length = key.len.toNat
  odd : Odd (value key.modulus)
  full : 2 ^ (32 * key.len.toNat - 1) ≤ value key.modulus
  n0inv : 2 ^ 32 ∣ value key.modulus * key.n0inv.toNat + 1
  rr : value key.rr = 2 ^ (64 * key.len.toNat) % value key.modulus

structure RsaPublicKey.Reducing (key : RsaPublicKey) : Prop where
  someWords : 1 ≤ key.len.toNat
  modulusLength : key.modulus.length = key.len.toNat
  n0inv : 2 ^ 32 ∣ value key.modulus * key.n0inv.toNat + 1

theorem RsaPublicKey.Valid.reducing {key : RsaPublicKey} (valid : key.Valid) : key.Reducing :=
  ⟨valid.someWords, valid.modulusLength, valid.n0inv⟩

namespace RsaPublicKey.Reducing

variable {key : RsaPublicKey} (reducing : key.Reducing)

include reducing

def reduction : Reduction (2 ^ 32) where
  modulus := value key.modulus
  inverse := key.n0inv.toNat
  digits := key.len.toNat
  inverts := reducing.n0inv
  modulus_lt := by
    rw [← Nat.pow_mul, ← reducing.modulusLength]
    exact value_lt

theorem range_eq : reducing.reduction.range = 2 ^ (32 * key.len.toNat) := (Nat.pow_mul ..).symm

theorem value_lt_range (length : words.length = key.len.toNat) :
    value words < reducing.reduction.range := by
  rw [reducing.range_eq, ← length]
  exact value_lt

end RsaPublicKey.Reducing

/-! ## One digit -/

section Step

variable {key : RsaPublicKey} {a : UInt32} {b result : List UInt32}

theorem quotient_eq (reducing : key.Reducing) (word resultWord : UInt32) (bs rest : List UInt32)
    {accA : UInt64} (accA_eq : accA.toNat = a.toNat * word.toNat + resultWord.toNat) :
    (accA.toUInt32 * key.n0inv).toNat =
      reducing.reduction.quotient (value (resultWord :: rest) + a.toNat * value (word :: bs)) := by
  have low : (value (resultWord :: rest) + a.toNat * value (word :: bs)) % 2 ^ 32 =
      accA.toNat % 2 ^ 32 := by
    rw [accA_eq, value_cons, value_cons]
    have regrouped : resultWord.toNat + 2 ^ 32 * value rest +
        a.toNat * (word.toNat + 2 ^ 32 * value bs) =
          a.toNat * word.toNat + resultWord.toNat + 2 ^ 32 * (value rest + a.toNat * value bs) := by
      ring
    rw [regrouped, Nat.add_mul_mod_self_left]
  rw [UInt32.toNat_mul, UInt64.toNat_toUInt32, Reduction.quotient, low]
  rfl

theorem storeHighest_value (reducing : key.Reducing) {written : List UInt32} {acc : UInt64}
    (last : UInt32) (length : written.length + 1 = key.len.toNat)
    (bound : value written + 2 ^ (32 * written.length) * acc.toNat <
      reducing.reduction.range + value key.modulus) :
    ∃ final, (do
        let result ← store (written ++ [last]) written.length acc.toUInt32
        if acc >>> 32 ≠ 0 then subtractModulus key result else return result) = .ok final ∧
      final.length = key.len.toNat ∧
      value final = reducing.reduction.confine
        (value written + 2 ^ (32 * written.length) * acc.toNat) := by
  have stored : (written ++ [acc.toUInt32]).length = key.len.toNat := by
    rw [List.length_append, List.length_singleton, length]
  have range_eq : reducing.reduction.range = 2 ^ (32 * written.length) * 2 ^ 32 := by
    rw [reducing.range_eq, ← length, Nat.mul_add_one, pow_add]
  have split := Nat.mod_add_div acc.toNat (2 ^ 32)
  have low : value (written ++ [acc.toUInt32]) =
      value written + 2 ^ (32 * written.length) * (acc.toNat % 2 ^ 32) := by
    rw [value_concat, UInt64.toNat_toUInt32]
  have low_lt : value (written ++ [acc.toUInt32]) < reducing.reduction.range :=
    reducing.value_lt_range stored
  have whole : value written + 2 ^ (32 * written.length) * acc.toNat =
      value (written ++ [acc.toUInt32]) + reducing.reduction.range * (acc.toNat / 2 ^ 32) := by
    conv_lhs => rw [← split]
    rw [low, range_eq]
    ring
  have shifted : acc >>> 32 ≠ 0 ↔ acc.toNat / 2 ^ 32 ≠ 0 := by
    rw [ne_eq, ← UInt64.toNat_inj, UInt64.toNat_shiftRight]
    rw [show UInt64.toNat 32 % 64 = 32 from rfl, Nat.shiftRight_eq_div_pow]
    rfl
  rw [store_cut, Exec.ok_bind]
  by_cases carry : acc >>> 32 ≠ 0
  · have positive := shifted.mp carry
    have modulus_lt : value key.modulus < reducing.reduction.range := reducing.reduction.modulus_lt
    have one : acc.toNat / 2 ^ 32 = 1 := by
      by_contra other
      have twice : reducing.reduction.range * 2 ≤ reducing.reduction.range * (acc.toNat / 2 ^ 32) :=
        Nat.mul_le_mul_left _ (by omega)
      omega
    rw [one, Nat.mul_one] at whole
    obtain ⟨final, run, finalLength, equation⟩ :=
      subtractModulus_value reducing.modulusLength stored
    rw [← reducing.range_eq, if_neg (by omega)] at equation
    refine ⟨final, (if_pos carry).trans run, finalLength, ?_⟩
    rw [equation, Reduction.confine, if_pos (by omega)]
    change _ = _ - value key.modulus
    omega
  · have none : acc.toNat / 2 ^ 32 = 0 := by
      by_contra positive
      exact carry (shifted.mpr positive)
    rw [none, Nat.mul_zero, Nat.add_zero] at whole
    refine ⟨_, if_neg carry, stored, ?_⟩
    rw [Reduction.confine, if_neg (by omega), whole]

theorem reduce_eq (reducing : key.Reducing) {modulusWord word resultWord d0 : UInt32}
    {modulus bs rest : List UInt32} (modulus_eq : key.modulus = modulusWord :: modulus)
    (accA_eq : accA = a.toNat * word.toNat + resultWord.toNat)
    (accB_eq : accB = d0.toNat * modulusWord.toNat + accA % 2 ^ 32)
    (d0_eq : d0.toNat =
      reducing.reduction.quotient (value (resultWord :: rest) + a.toNat * value (word :: bs)))
    (sum_eq : sum = accA / 2 ^ 32 + accB / 2 ^ 32 + a.toNat * value bs + value rest +
      d0.toNat * value modulus) :
    reducing.reduction.reduce (value (resultWord :: rest) + a.toNat * value (word :: bs)) =
      sum := by
  have number_eq : value (resultWord :: rest) + a.toNat * value (word :: bs) +
      d0.toNat * value key.modulus = accA + d0.toNat * modulusWord.toNat +
        2 ^ 32 * (a.toNat * value bs + value rest + d0.toNat * value modulus) := by
    rw [modulus_eq, value_cons, value_cons, value_cons, accA_eq]
    ring
  have divides := reducing.reduction.dvd_add_quotient
    (value (resultWord :: rest) + a.toNat * value (word :: bs))
  have exact := reducing.reduction.reduce_mul
    (value (resultWord :: rest) + a.toNat * value (word :: bs))
  rw [← d0_eq, show reducing.reduction.modulus = value key.modulus from rfl] at divides exact
  omega

theorem montgomeryMulAddStep_value (reducing : key.Reducing) (b_length : b.length = key.len.toNat)
    (result_length : result.length = key.len.toNat) :
    ∃ written, montgomeryMulAddStep key result a b = .ok written ∧ written.length = key.len.toNat ∧
      value written = reducing.reduction.addStep (value b) (value result) a.toNat := by
  have modulus_length := reducing.modulusLength
  have b_lt := reducing.value_lt_range b_length
  have result_lt := reducing.value_lt_range result_length
  obtain ⟨count, count_eq⟩ := Nat.exists_eq_add_of_le' reducing.someWords
  rw [count_eq] at modulus_length b_length result_length
  cases modulus_eq : key.modulus with
  | nil => simp [modulus_eq] at modulus_length
  | cons modulusWord modulus =>
    cases b with
    | nil => simp at b_length
    | cons word bs =>
      cases result with
      | nil => simp at result_length
      | cons resultWord rest =>
        rw [modulus_eq] at modulus_length
        have accA_eq := toNat_mulAdd_first a word resultWord
        generalize first : a.toUInt64 * word.toUInt64 + resultWord.toUInt64 = accA at accA_eq
        have d0_eq := quotient_eq reducing word resultWord bs rest accA_eq
        generalize digit : accA.toUInt32 * key.n0inv = d0 at d0_eq
        have accB_eq := toNat_mulAdd_first d0 modulusWord accA.toUInt32
        generalize second : d0.toUInt64 * modulusWord.toUInt64 + accA.toUInt32.toUInt64 =
          accB at accB_eq
        rw [UInt64.toNat_toUInt32] at accB_eq
        obtain ⟨accA', accB', written, last, run, length, sum⟩ := @mulAddLoop_cut key a d0
          (word :: bs) count [modulusWord] [word] [] modulus bs rest resultWord accA accB
          modulus_eq rfl rfl rfl (Nat.succ.inj modulus_length) (Nat.succ.inj b_length)
          (Nat.succ.inj result_length)
        have reduced := reduce_eq reducing modulus_eq accA_eq accB_eq d0_eq sum
        rw [← toNat_carries, ← length] at reduced
        have bound := Reduction.reduce_lt (by decide) result_lt a.toNat_lt b_lt
        rw [reduced] at bound
        obtain ⟨final, stored, finalLength, equation⟩ := storeHighest_value reducing last
          (by rw [length, count_eq]) bound
        refine ⟨final, ?_, finalLength, ?_⟩
        · simp only [montgomeryMulAddStep, load, List.getElem?_cons_zero, Exec.ok_bind, first,
            digit, modulus_eq, second, count_eq, Nat.add_sub_cancel]
          have highest : max 1 (count + 1) - 1 = written.length := by omega
          change mulAddLoop key a d0 (word :: bs) count 1 ⟨accA, accB, resultWord :: rest⟩ =
            .ok ⟨accA', accB', written ++ [last]⟩ at run
          rw [run, Exec.ok_bind, highest]
          exact stored
        · rw [equation, Reduction.addStep, reduced]

end Step

section Product

variable {key : RsaPublicKey} {a b result : List UInt32}

theorem clearLoop_cut (done : List UInt32) (length : rest.length = count) :
    clearLoop count done.length (done ++ rest) = .ok (done ++ List.replicate count 0) := by
  induction count generalizing done rest with
  | zero =>
    cases List.length_eq_zero_iff.mp length
    rfl
  | succ count induction =>
    cases rest with
    | nil => simp at length
    | cons word rest =>
      have cleared := induction (done ++ [0]) (Nat.succ.inj length)
      rw [List.length_append, List.append_assoc, List.append_assoc] at cleared
      rw [clearLoop, store_cut]
      exact cleared

theorem multiplyLoop_value (reducing : key.Reducing) (lower : List UInt32)
    (a_eq : a = lower ++ digits) (digits_length : digits.length = count)
    (b_length : b.length = key.len.toNat) (result_length : result.length = key.len.toNat) :
    ∃ written, multiplyLoop key a b count lower.length result = .ok written ∧
      written.length = key.len.toNat ∧
      value written =
        (digits.map UInt32.toNat).foldl (reducing.reduction.addStep (value b)) (value result) := by
  induction count generalizing lower digits result with
  | zero =>
    cases List.length_eq_zero_iff.mp digits_length
    exact ⟨result, rfl, result_length, rfl⟩
  | succ count induction =>
    cases digits with
    | nil => simp at digits_length
    | cons word digits =>
      have loaded : load a lower.length = .ok word := by
        rw [a_eq, load_cut]
      obtain ⟨next, step, nextLength, nextValue⟩ :=
        @montgomeryMulAddStep_value key word b result reducing b_length result_length
      obtain ⟨written, run, length, equation⟩ := induction (lower ++ [word])
        (a_eq.trans (List.append_cons ..)) (Nat.succ.inj digits_length) nextLength
      refine ⟨written, ?_, length, ?_⟩
      · rw [List.length_append] at run
        rw [multiplyLoop, loaded, Exec.ok_bind, step, Exec.ok_bind]
        exact run
      · rw [equation, nextValue, List.map_cons, List.foldl_cons]

theorem montgomeryMul_value (reducing : key.Reducing) (a_length : a.length = key.len.toNat)
    (b_length : b.length = key.len.toNat) (result_length : result.length = key.len.toNat) :
    ∃ written, montgomeryMul key result a b = .ok written ∧ written.length = key.len.toNat ∧
      value written = reducing.reduction.product (a.map UInt32.toNat) (value b) := by
  have cleared := clearLoop_cut [] result_length
  obtain ⟨written, run, length, equation⟩ := multiplyLoop_value reducing [] rfl a_length b_length
    (List.length_replicate (n := key.len.toNat) (a := 0))
  refine ⟨written, ?_, length, ?_⟩
  · change clearLoop key.len.toNat 0 result = .ok (List.replicate key.len.toNat 0) at cleared
    rw [montgomeryMul, cleared, Exec.ok_bind]
    exact run
  · rw [equation, value_replicate_zero, Reduction.product]

end Product

/-! ## The accumulators

Each predicate follows a loop and says of every accumulator on the way that it is the
sum of its parts over the integers. -/

section Exact

variable (key : RsaPublicKey)

def SubtractExact : Nat → Nat → Int64 → List UInt32 → Prop
  | 0, _, _, _ => True
  | count + 1, i, acc, num => ∀ word modulusWord next, load num i = .ok word →
      load key.modulus i = .ok modulusWord →
      let sum := acc + (word.toUInt64 - modulusWord.toUInt64).toInt64
      sum.toInt = acc.toInt + word.toNat - modulusWord.toNat ∧
        (store num i sum.toUInt64.toUInt32 = .ok next →
          SubtractExact count (i + 1) (sum >>> 32) next)

def MulAddExact (a d0 : UInt32) (b : List UInt32) : Nat → Nat → MulAdd → Prop
  | 0, _, _ => True
  | count + 1, i, state => ∀ word resultWord modulusWord next, load b i = .ok word →
      load state.result i = .ok resultWord → load key.modulus i = .ok modulusWord →
      let accA := (state.accA >>> 32) + a.toUInt64 * word.toUInt64 + resultWord.toUInt64
      let accB :=
        (state.accB >>> 32) + d0.toUInt64 * modulusWord.toUInt64 + accA.toUInt32.toUInt64
      accA.toNat = state.accA.toNat / 2 ^ 32 + a.toNat * word.toNat + resultWord.toNat ∧
        accB.toNat =
          state.accB.toNat / 2 ^ 32 + d0.toNat * modulusWord.toNat + accA.toNat % 2 ^ 32 ∧
        (store state.result (i - 1) accB.toUInt32 = .ok next →
          MulAddExact a d0 b count (i + 1) ⟨accA, accB, next⟩)

def StepExact (result : List UInt32) (a : UInt32) (b : List UInt32) : Prop :=
  ∀ word resultWord modulusWord state next, load b 0 = .ok word → load result 0 = .ok resultWord →
    load key.modulus 0 = .ok modulusWord →
    let accA := a.toUInt64 * word.toUInt64 + resultWord.toUInt64
    let d0 := accA.toUInt32 * key.n0inv
    let accB := d0.toUInt64 * modulusWord.toUInt64 + accA.toUInt32.toUInt64
    accA.toNat = a.toNat * word.toNat + resultWord.toNat ∧
      accB.toNat = d0.toNat * modulusWord.toNat + accA.toNat % 2 ^ 32 ∧
      MulAddExact key a d0 b (key.len.toNat - 1) 1 ⟨accA, accB, result⟩ ∧
      (mulAddLoop key a d0 b (key.len.toNat - 1) 1 ⟨accA, accB, result⟩ = .ok state →
        ((state.accA >>> 32) + (state.accB >>> 32)).toNat =
          state.accA.toNat / 2 ^ 32 + state.accB.toNat / 2 ^ 32 ∧
        (store state.result (max 1 key.len.toNat - 1)
            ((state.accA >>> 32) + (state.accB >>> 32)).toUInt32 = .ok next →
          SubtractExact key key.len.toNat 0 0 next))

def MultiplyExact (a b : List UInt32) : Nat → Nat → List UInt32 → Prop
  | 0, _, _ => True
  | count + 1, i, result => ∀ word next, load a i = .ok word →
      StepExact key result word b ∧
        (montgomeryMulAddStep key result word b = .ok next → MultiplyExact a b count (i + 1) next)

variable {key}

theorem subtractExact (borrow : IsBorrow acc) : SubtractExact key count i acc num := by
  induction count generalizing i acc num with
  | zero => trivial
  | succ count induction =>
    intro word modulusWord next _ _
    exact ⟨toInt_subtract borrow word modulusWord,
      fun _ => induction (subtract_word borrow word modulusWord rfl).1⟩

theorem mulAddExact (state : MulAdd) : MulAddExact key a d0 b count i state := by
  induction count generalizing i state with
  | zero => trivial
  | succ count induction =>
    intro word resultWord modulusWord next _ _ _
    refine ⟨toNat_mulAdd .., ?_, fun _ => induction _⟩
    rw [toNat_mulAdd, UInt64.toNat_toUInt32]

theorem multiplyExact (result : List UInt32) : MultiplyExact key a b count i result := by
  induction count generalizing i result with
  | zero => trivial
  | succ count induction =>
    intro word next _
    refine ⟨?_, fun _ => induction _⟩
    intro first resultWord modulusWord state final _ _ _
    refine ⟨toNat_mulAdd_first .., ?_, mulAddExact _, fun _ =>
      ⟨toNat_carries .., fun _ => subtractExact (.inl rfl)⟩⟩
    rw [toNat_mulAdd_first, UInt64.toNat_toUInt32]

/-- Montgomery multiplication of numbers below the range, which need not be below the modulus:
the result is a number of as many words, it is right modulo the modulus, and no accumulator
overflows. -/
theorem montgomeryMul_correct (key : RsaPublicKey) (someWords : 1 ≤ key.len.toNat)
    (modulusLength : key.modulus.length = key.len.toNat)
    (n0inv : 2 ^ 32 ∣ value key.modulus * key.n0inv.toNat + 1) (result a b : List UInt32)
    (result_length : result.length = key.len.toNat) (a_length : a.length = key.len.toNat)
    (b_length : b.length = key.len.toNat) :
    (∃ written, montgomeryMul key result a b = .ok written ∧ written.length = key.len.toNat ∧
      value written < 2 ^ (32 * key.len.toNat) ∧
      value written * 2 ^ (32 * key.len.toNat) ≡ value a * value b [MOD value key.modulus]) ∧
    ∀ cleared, clearLoop key.len.toNat 0 result = .ok cleared →
      MultiplyExact key a b key.len.toNat 0 cleared := by
  have reducing : key.Reducing := ⟨someWords, modulusLength, n0inv⟩
  obtain ⟨written, run, length, equation⟩ :=
    montgomeryMul_value reducing a_length b_length result_length
  refine ⟨⟨written, run, length, ?_, ?_⟩, fun cleared _ => multiplyExact cleared⟩
  · rw [← length]
    exact value_lt
  · rw [equation, ← reducing.range_eq]
    exact Reduction.product_modEq (by rw [List.length_map, a_length]; rfl)

/-- The modulus `65521 * 200000000000027` in two words. -/
def twoWordKey : RsaPublicKey where
  len := 2
  n0inv := 0xb47bc1bd
  modulus := [0x91c77e6b, 0xb5db7878]
  rr := [0x18b78e96, 0x6b4d2e35]

/-- Both factors are above the modulus, and both digits end with a subtraction. -/
theorem montgomeryMul_correct_two : ∃ written,
    montgomeryMul twoWordKey [9, 9] [0xffffffff, 0xffffffff] [0xfffffffe, 0xffffffff] =
      .ok written ∧ value written = 9833594096738988565 ∧
    value written * 2 ^ 64 ≡ 0xffffffffffffffff * 0xfffffffffffffffe [MOD 0xb5db787891c77e6b] := by
  obtain ⟨written, run, _, _, right⟩ := (montgomeryMul_correct twoWordKey (by decide) rfl
    (by decide) [9, 9] [0xffffffff, 0xffffffff] [0xfffffffe, 0xffffffff] rfl rfl rfl).1
  refine ⟨written, run, ?_, right⟩
  have computed : montgomeryMul twoWordKey [9, 9] [0xffffffff, 0xffffffff]
      [0xfffffffe, 0xffffffff] = .ok [0xf9817215, 0x8877f1ba] := by decide +kernel
  cases computed.symm.trans run
  decide

end Exact

end UBootV210.Signature
