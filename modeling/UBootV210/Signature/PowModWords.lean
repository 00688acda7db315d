import UBootV210.Signature.PowMod

/-! # What the loops over words compute

Each loop of the arithmetic stays inside its arrays when they have the length of
the key, and what it leaves in them is described by the numbers they hold. -/

namespace UBootV210.Signature

open CheckedMemory WordArray

theorem toInt_shiftRight (acc : Int64) : (acc >>> 32).toInt = acc.toInt / 2 ^ 32 := by
  change (acc.toBitVec.sshiftRight 32).toInt = _
  rw [BitVec.toInt_sshiftRight, Int.shiftRight_eq_div_pow]
  rfl

theorem toNat_lowWord (acc : Int64) : (acc.toUInt64.toUInt32.toNat : Int) = acc.toInt % 2 ^ 32 := by
  change ((acc.toBitVec.toNat % 2 ^ 32 : Nat) : Int) = acc.toBitVec.toInt % 2 ^ 32
  rw [BitVec.toInt_eq_toNat_cond]
  split <;> omega

theorem toInt_word (word : UInt32) : word.toUInt64.toInt64.toInt = word.toNat := by
  have bound := word.toNat_lt
  change word.toUInt64.toBitVec.toInt = _
  rw [BitVec.toInt_eq_toNat_of_lt]
  · rfl
  · change 2 * word.toUInt64.toNat < 2 ^ 64
    rw [UInt32.toNat_toUInt64]
    omega

def IsBorrow (acc : Int64) : Prop := acc.toInt = 0 ∨ acc.toInt = -1

variable {acc : Int64}

theorem toInt_subtract (borrow : IsBorrow acc) (word modulusWord : UInt32) :
    (acc + (word.toUInt64 - modulusWord.toUInt64).toInt64).toInt =
      acc.toInt + word.toNat - modulusWord.toNat := by
  have word_lt := word.toNat_lt
  have modulus_lt := modulusWord.toNat_lt
  have difference : (word.toUInt64 - modulusWord.toUInt64).toInt64.toInt =
      word.toNat - modulusWord.toNat := by
    rw [UInt64.toInt64_sub, Int64.toInt_sub, toInt_word, toInt_word]
    apply Int.bmod_eq_of_le <;> omega
  rw [Int64.toInt_add, difference]
  rcases borrow with none | one
  · rw [none, Int.bmod_eq_of_le] <;> omega
  · rw [one, Int.bmod_eq_of_le] <;> omega

theorem toNat_mulAdd (carry : UInt64) (first second added : UInt32) :
    ((carry >>> 32) + first.toUInt64 * second.toUInt64 + added.toUInt64).toNat =
      carry.toNat / 2 ^ 32 + first.toNat * second.toNat + added.toNat := by
  have carry_lt := carry.toNat_lt
  have first_lt := first.toNat_lt
  have second_lt := second.toNat_lt
  have added_lt := added.toNat_lt
  have product : first.toNat * second.toNat ≤ (2 ^ 32 - 1) * (2 ^ 32 - 1) :=
    Nat.mul_le_mul (by omega) (by omega)
  rw [UInt64.toNat_add, UInt64.toNat_add, UInt64.toNat_mul, UInt64.toNat_shiftRight,
    UInt32.toNat_toUInt64, UInt32.toNat_toUInt64, UInt32.toNat_toUInt64]
  rw [show UInt64.toNat 32 % 64 = 32 from rfl, Nat.shiftRight_eq_div_pow]
  omega

theorem toNat_mulAdd_first (first second added : UInt32) :
    (first.toUInt64 * second.toUInt64 + added.toUInt64).toNat =
      first.toNat * second.toNat + added.toNat := by
  simpa using toNat_mulAdd 0 first second added

theorem toNat_carries (first second : UInt64) :
    ((first >>> 32) + (second >>> 32)).toNat = first.toNat / 2 ^ 32 + second.toNat / 2 ^ 32 := by
  have first_lt := first.toNat_lt
  have second_lt := second.toNat_lt
  rw [UInt64.toNat_add, UInt64.toNat_shiftRight, UInt64.toNat_shiftRight,
    show UInt64.toNat 32 % 64 = 32 from rfl, Nat.shiftRight_eq_div_pow, Nat.shiftRight_eq_div_pow]
  omega

variable {num : List UInt32}

section Subtract

variable {key : RsaPublicKey}

theorem subtract_word (borrow : IsBorrow acc) (word modulusWord : UInt32)
    (sum_eq : sum = acc + (word.toUInt64 - modulusWord.toUInt64).toInt64) :
    IsBorrow (sum >>> 32) ∧
      (sum.toUInt64.toUInt32.toNat : Int) + (2 ^ 32 : Int) * (sum >>> 32).toInt =
        acc.toInt + word.toNat - modulusWord.toNat := by
  have word_lt := word.toNat_lt
  have modulus_lt := modulusWord.toNat_lt
  have next : sum.toInt = acc.toInt + word.toNat - modulusWord.toNat := by
    rw [sum_eq, toInt_subtract borrow]
  rw [IsBorrow, toInt_shiftRight, toNat_lowWord]
  constructor
  · cases borrow <;> omega
  · rw [Int.emod_add_mul_ediv, next]

theorem subtractLoop_cut (borrow : IsBorrow acc) (lower done : List UInt32)
    (modulus_eq : key.modulus = lower ++ modulus)
    (aligned : lower.length = done.length) (modulus_length : modulus.length = count)
    (num_length : num.length = count) :
    ∃ written, ∃ left : Int64, subtractLoop key count done.length acc (done ++ num) =
        .ok (done ++ written) ∧ written.length = count ∧ IsBorrow left ∧
      (value written : Int) + 2 ^ (32 * count) * left.toInt =
        acc.toInt + value num - value modulus := by
  induction count generalizing acc lower done modulus num with
  | zero =>
    cases List.length_eq_zero_iff.mp modulus_length
    cases List.length_eq_zero_iff.mp num_length
    exact ⟨[], acc, rfl, rfl, borrow, by simp⟩
  | succ count induction =>
    cases modulus with
    | nil => simp at modulus_length
    | cons modulusWord modulus =>
      cases num with
      | nil => simp at num_length
      | cons word num =>
        have loaded : load key.modulus done.length = .ok modulusWord := by
          rw [modulus_eq, ← aligned, load_cut]
        have turn := subtract_word borrow word modulusWord rfl
        generalize sum_eq : acc + (word.toUInt64 - modulusWord.toUInt64).toInt64 = sum
          at turn
        obtain ⟨written, left, run, length, borrowed, equation⟩ := induction turn.1
          (lower ++ [modulusWord]) (done ++ [sum.toUInt64.toUInt32])
          (modulus_eq.trans (List.append_cons ..)) (by simp [aligned])
          (Nat.succ.inj modulus_length) (Nat.succ.inj num_length)
        refine ⟨sum.toUInt64.toUInt32 :: written, left, ?_, by simp [length], borrowed, ?_⟩
        · rw [List.length_append, List.append_assoc, List.append_assoc] at run
          simp only [subtractLoop, load_cut, Exec.ok_bind, loaded, sum_eq, store_cut]
          exact run
        · rw [value_cons, value_cons, value_cons, Nat.mul_add_one, pow_add]
          push_cast
          linear_combination turn.2 + 2 ^ 32 * equation

theorem subtractModulus_value (modulus_length : key.modulus.length = key.len.toNat)
    (num_length : num.length = key.len.toNat) :
    ∃ written, subtractModulus key num = .ok written ∧ written.length = key.len.toNat ∧
      value written = if value key.modulus ≤ value num then value num - value key.modulus
        else value num + 2 ^ (32 * key.len.toNat) - value key.modulus := by
  have none : IsBorrow 0 := .inl rfl
  obtain ⟨written, left, run, length, borrow, equation⟩ := subtractLoop_cut none [] []
    (List.nil_append key.modulus).symm rfl modulus_length num_length
  have written_lt : value written < 2 ^ (32 * written.length) := value_lt
  have num_lt : value num < 2 ^ (32 * num.length) := value_lt
  have modulus_lt : value key.modulus < 2 ^ (32 * key.modulus.length) := value_lt
  rw [length] at written_lt
  rw [num_length] at num_lt
  rw [modulus_length] at modulus_lt
  refine ⟨written, run, length, ?_⟩
  generalize range_eq : 2 ^ (32 * key.len.toNat) = range at *
  have range_cast : (2 : Int) ^ (32 * key.len.toNat) = range := by
    rw [← range_eq]
    push_cast
    rfl
  rw [range_cast, show (0 : Int64).toInt = 0 from rfl] at equation
  rcases borrow with none | one
  · rw [none] at equation
    split <;> omega
  · rw [one] at equation
    split <;> omega

end Subtract

/-! ## Comparison -/

section Compare

variable {key : RsaPublicKey}

theorem ofNat_succ_sub_one : UInt32.ofNat (count + 1) - 1 = UInt32.ofNat count := by
  rw [UInt32.ofNat_add]
  exact add_sub_cancel_right _ _

theorem greaterEqualLoop_cut {fuel : Nat} {low modulusLow high : List UInt32}
    (modulus_eq : key.modulus = modulusLow ++ high) (sized : low.length = modulusLow.length)
    (short : (low ++ high).length < 2 ^ 32 - 1) (enough : low.length < fuel) :
    greaterEqualLoop key (low ++ high) fuel (UInt32.ofNat low.length - 1) =
      if value low = value modulusLow then .error .outOfBounds
      else .ok (value modulusLow < value low) := by
  induction low using List.reverseRecOn generalizing fuel modulusLow high with
  | nil =>
    cases List.length_eq_zero_iff.mp sized.symm
    cases fuel with
    | zero => simp at enough
    | succ fuel =>
      have outside : (high[4294967295]?) = none := by
        apply List.getElem?_eq_none
        simp only [List.nil_append] at short
        omega
      rw [if_pos rfl, greaterEqualLoop, List.nil_append]
      change (load high 4294967295 >>= _) = _
      rw [load, outside]
      rfl
  | append_singleton low word induction =>
    cases modulusLow using List.reverseRecOn with
    | nil => simp at sized
    | append_singleton modulusLow modulusWord _ =>
      have lengths : low.length = modulusLow.length := by simpa using sized
      have index : (UInt32.ofNat (low ++ [word]).length - 1).toNat = low.length := by
        rw [List.length_append, List.length_singleton, ofNat_succ_sub_one]
        apply UInt32.toNat_ofNat_of_lt'
        simp only [List.length_append] at short
        simp only [UInt32.size]
        omega
      have loaded : load (low ++ [word] ++ high) low.length = .ok word := by
        rw [List.append_assoc, List.singleton_append, load_cut]
      have loadedModulus : load key.modulus low.length = .ok modulusWord := by
        rw [modulus_eq, lengths, List.append_assoc, List.singleton_append, load_cut]
      cases fuel with
      | zero => simp at enough
      | succ fuel =>
        simp only [greaterEqualLoop, index, loaded, loadedModulus, Exec.ok_bind]
        by_cases less : word < modulusWord
        · have below := value_concat_lt lengths less
          rw [if_pos less, if_neg below.ne, decide_eq_false below.not_gt]
          rfl
        · by_cases greater : word > modulusWord
          · have above := value_concat_lt lengths.symm greater
            rw [if_neg less, if_pos greater, if_neg above.ne', decide_eq_true above]
            rfl
          · cases UInt32.le_antisymm (UInt32.not_lt.mp greater) (UInt32.not_lt.mp less)
            have rest := @induction fuel modulusLow (word :: high)
              (modulus_eq.trans (List.append_assoc ..)) lengths
              (by simpa [Nat.add_assoc, Nat.add_comm 1] using short) (by simpa using enough)
            rw [if_neg less, if_neg less, List.length_append, List.length_singleton,
              ofNat_succ_sub_one, List.append_assoc, List.singleton_append, value_concat,
              value_concat, lengths]
            simp only [Nat.add_right_cancel_iff, Nat.add_lt_add_iff_right]
            rw [← lengths]
            exact rest

/-- The comparison is right for different numbers and reads outside its arrays for
equal ones. -/
theorem greaterEqualModulus_eq (modulus_length : key.modulus.length = key.len.toNat)
    (num_length : num.length = key.len.toNat) (short : key.len.toNat < 2 ^ 32 - 1) :
    greaterEqualModulus key num =
      if value num = value key.modulus then .error .outOfBounds
      else .ok (value key.modulus < value num) := by
  have compared := @greaterEqualLoop_cut key (key.len.toNat + 1) num key.modulus []
    (List.append_nil _).symm (num_length.trans modulus_length.symm)
    (by rwa [List.append_nil, num_length]) (num_length ▸ Nat.lt_succ_self _)
  rw [List.append_nil, num_length, UInt32.ofNat_toNat] at compared
  exact compared

end Compare

section MulAdd

variable {key : RsaPublicKey} {a d0 : UInt32} {b : List UInt32}

theorem mulAddLoop_cut {count : Nat} (lower bLower done : List UInt32)
    {modulus bs rest : List UInt32} {stale : UInt32} {accA accB : UInt64}
    (modulus_eq : key.modulus = lower ++ modulus) (b_eq : b = bLower ++ bs)
    (modulus_aligned : lower.length = done.length + 1)
    (b_aligned : bLower.length = done.length + 1) (modulus_length : modulus.length = count)
    (b_length : bs.length = count) (rest_length : rest.length = count) :
    ∃ accA' accB' written last,
      mulAddLoop key a d0 b count (done.length + 1) ⟨accA, accB, done ++ stale :: rest⟩ =
        .ok ⟨accA', accB', done ++ (written ++ [last])⟩ ∧
      written.length = count ∧
      value written + 2 ^ (32 * count) * (accA'.toNat / 2 ^ 32 + accB'.toNat / 2 ^ 32) =
        accA.toNat / 2 ^ 32 + accB.toNat / 2 ^ 32 + a.toNat * value bs + value rest +
          d0.toNat * value modulus := by
  induction count generalizing lower bLower done modulus bs rest stale accA accB with
  | zero =>
    cases List.length_eq_zero_iff.mp modulus_length
    cases List.length_eq_zero_iff.mp b_length
    cases List.length_eq_zero_iff.mp rest_length
    exact ⟨accA, accB, [], stale, rfl, rfl, by simp⟩
  | succ count induction =>
    cases modulus with
    | nil => simp at modulus_length
    | cons modulusWord modulus =>
      cases bs with
      | nil => simp at b_length
      | cons word bs =>
        cases rest with
        | nil => simp at rest_length
        | cons resultWord rest =>
          have loadedModulus : load key.modulus (done.length + 1) = .ok modulusWord := by
            rw [modulus_eq, ← modulus_aligned, load_cut]
          have loadedB : load b (done.length + 1) = .ok word := by
            rw [b_eq, ← b_aligned, load_cut]
          have sumA := toNat_mulAdd accA a word resultWord
          generalize accA_eq : (accA >>> 32) + a.toUInt64 * word.toUInt64 +
            resultWord.toUInt64 = nextA at sumA
          have sumB := toNat_mulAdd accB d0 modulusWord nextA.toUInt32
          generalize accB_eq : (accB >>> 32) + d0.toUInt64 * modulusWord.toUInt64 +
            nextA.toUInt32.toUInt64 = nextB at sumB
          obtain ⟨accA', accB', written, last, run, length, equation⟩ := induction
            (lower ++ [modulusWord]) (bLower ++ [word]) (done ++ [nextB.toUInt32])
            (modulus_eq.trans (List.append_cons ..)) (b_eq.trans (List.append_cons ..))
            (by simp [modulus_aligned]) (by simp [b_aligned])
            (Nat.succ.inj modulus_length) (Nat.succ.inj b_length)
            (Nat.succ.inj rest_length)
          refine ⟨accA', accB', nextB.toUInt32 :: written, last, ?_, by simp [length], ?_⟩
          · rw [List.length_append, List.append_assoc, List.append_assoc] at run
            simp only [mulAddLoop, loadedB, loadedModulus, load_cut_succ, Exec.ok_bind,
              accA_eq, accB_eq, Nat.add_sub_cancel, store_cut]
            exact run
          · rw [UInt64.toNat_toUInt32] at sumB
            rw [value_cons, value_cons, value_cons, value_cons, Nat.mul_add_one, pow_add,
              UInt64.toNat_toUInt32]
            have splitA := Nat.mod_add_div nextA.toNat (2 ^ 32)
            have splitB := Nat.mod_add_div nextB.toNat (2 ^ 32)
            linarith

end MulAdd

end UBootV210.Signature
