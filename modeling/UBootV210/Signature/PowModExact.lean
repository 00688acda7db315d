import UBootV210.Signature.PowModProduct

/-! # Exactness of the public operation

The operation returns the power of the signature unless the last product is the
modulus itself: then the comparison with the modulus leaves its arrays. -/

namespace UBootV210.Signature

open CheckedMemory WordArray Montgomery

/-! ## Bytes and words -/

section Bytes

theorem bigEndian_four :
    bigEndian [byte0, byte1, byte2, byte3] = 2 ^ 24 * byte0.toNat + 2 ^ 16 * byte1.toNat +
      2 ^ 8 * byte2.toNat + byte3.toNat := by
  simp only [bigEndian, List.reverse_cons, List.reverse_nil, List.nil_append, List.cons_append,
    List.map_cons, List.map_nil, Nat.ofDigits_cons, Nat.ofDigits_nil]
  omega

theorem toNat_fourBytes (byte0 byte1 byte2 byte3 : UInt8) :
    (byte0.toUInt32 <<< 24 ||| byte1.toUInt32 <<< 16 ||| byte2.toUInt32 <<< 8 |||
      byte3.toUInt32).toNat = bigEndian [byte0, byte1, byte2, byte3] := by
  have bound0 := byte0.toNat_lt
  have bound1 := byte1.toNat_lt
  have bound2 := byte2.toNat_lt
  have bound3 := byte3.toNat_lt
  have shifted0 : (byte0.toUInt32 <<< 24).toNat = 2 ^ 24 * byte0.toNat := by
    rw [UInt32.toNat_shiftLeft, UInt8.toNat_toUInt32, show UInt32.toNat 24 % 32 = 24 from rfl,
      Nat.shiftLeft_eq]
    omega
  have shifted1 : (byte1.toUInt32 <<< 16).toNat = 2 ^ 16 * byte1.toNat := by
    rw [UInt32.toNat_shiftLeft, UInt8.toNat_toUInt32, show UInt32.toNat 16 % 32 = 16 from rfl,
      Nat.shiftLeft_eq]
    omega
  have shifted2 : (byte2.toUInt32 <<< 8).toNat = 2 ^ 8 * byte2.toNat := by
    rw [UInt32.toNat_shiftLeft, UInt8.toNat_toUInt32, show UInt32.toNat 8 % 32 = 8 from rfl,
      Nat.shiftLeft_eq]
    omega
  rw [bigEndian_four, UInt32.toNat_or, UInt32.toNat_or, UInt32.toNat_or, shifted0, shifted1,
    shifted2, UInt8.toNat_toUInt32, ← Nat.two_pow_add_eq_or_of_lt (by omega)]
  rw [show 2 ^ 24 * byte0.toNat + 2 ^ 16 * byte1.toNat =
      2 ^ 16 * (2 ^ 8 * byte0.toNat + byte1.toNat) by ring,
    ← Nat.two_pow_add_eq_or_of_lt (by omega)]
  rw [show 2 ^ 16 * (2 ^ 8 * byte0.toNat + byte1.toNat) + 2 ^ 8 * byte2.toNat =
      2 ^ 8 * (2 ^ 16 * byte0.toNat + 2 ^ 8 * byte1.toNat + byte2.toNat) by ring,
    ← Nat.two_pow_add_eq_or_of_lt (by omega)]

theorem bigEndian_wordBytes : bigEndian (wordBytes word) = word.toNat := by
  have bound := word.toNat_lt
  rw [wordBytes, bigEndian_four]
  simp only [UInt32.toNat_toUInt8, UInt32.toNat_shiftRight, show UInt32.toNat 24 % 32 = 24 from rfl,
    show UInt32.toNat 16 % 32 = 16 from rfl, show UInt32.toNat 8 % 32 = 8 from rfl,
    Nat.shiftRight_eq_div_pow]
  omega

theorem exists_lastWord (length : bytes.length = 4 * (count + 1)) :
    ∃ front byte0 byte1 byte2 byte3, bytes = front ++ [byte0, byte1, byte2, byte3] ∧
      front.length = 4 * count := by
  have rest : (bytes.drop (4 * count)).length = 4 := by
    rw [List.length_drop]
    omega
  obtain ⟨byte0, byte1, byte2, byte3, four⟩ := List.length_eq_four.mp rest
  refine ⟨bytes.take (4 * count), byte0, byte1, byte2, byte3, ?_, ?_⟩
  · rw [← four, List.take_append_drop]
  · rw [List.length_take]
    omega

theorem getUnalignedBe32_cut (length : front.length = 4 * ptr)
    (byte0 byte1 byte2 byte3 : UInt8) (back : List UInt8) :
    ∃ word, getUnalignedBe32 (front ++ ([byte0, byte1, byte2, byte3] ++ back)) ptr = .ok word ∧
      word.toNat = bigEndian [byte0, byte1, byte2, byte3] := by
  refine ⟨_, ?_, toNat_fourBytes byte0 byte1 byte2 byte3⟩
  simp [getUnalignedBe32, load, ← length]

theorem fromBigEndian_cut {count : Nat} (done : List UInt32) {rest : List UInt32}
    {front back : List UInt8} (front_length : front.length = 4 * count)
    (rest_length : rest.length = count) :
    ∃ written, fromBigEndian (front ++ back) count done.length (count - 1) (done ++ rest) =
        .ok (done ++ written) ∧ written.length = count ∧ value written = bigEndian front := by
  induction count generalizing done rest front back with
  | zero =>
    cases List.length_eq_zero_iff.mp front_length
    cases List.length_eq_zero_iff.mp rest_length
    exact ⟨[], rfl, rfl, rfl⟩
  | succ count induction =>
    cases rest with
    | nil => simp at rest_length
    | cons stale rest =>
      obtain ⟨lower, byte0, byte1, byte2, byte3, front_eq, lower_length⟩ :=
        exists_lastWord front_length
      obtain ⟨word, loaded, word_eq⟩ :=
        getUnalignedBe32_cut lower_length byte0 byte1 byte2 byte3 back
      obtain ⟨written, run, length, equation⟩ := @induction (done ++ [word]) rest lower
        ([byte0, byte1, byte2, byte3] ++ back) lower_length (Nat.succ.inj rest_length)
      refine ⟨word :: written, ?_, by rw [List.length_cons, length], ?_⟩
      · rw [List.length_append, List.append_assoc, List.append_assoc] at run
        rw [front_eq, List.append_assoc, fromBigEndian, Nat.add_sub_cancel, loaded,
          Exec.ok_bind, store_cut, Exec.ok_bind]
        exact run
      · have four : 256 ^ [byte0, byte1, byte2, byte3].length = 2 ^ 32 := by simp
        rw [value_cons, equation, word_eq, front_eq, bigEndian_append, four, Nat.add_comm]

theorem toBigEndian_cut {count ptr : Nat} {low high : List UInt32} {done rest : List UInt8}
    (low_length : low.length = count) (done_length : done.length = 4 * ptr)
    (rest_length : rest.length = 4 * count) :
    ∃ written, toBigEndian (low ++ high) count ptr (done ++ rest) = .ok (done ++ written) ∧
      written.length = 4 * count ∧ bigEndian written = value low := by
  induction count generalizing low high ptr done rest with
  | zero =>
    cases List.length_eq_zero_iff.mp low_length
    cases List.length_eq_zero_iff.mp rest_length
    exact ⟨[], rfl, rfl, rfl⟩
  | succ count induction =>
    cases low using List.reverseRecOn with
    | nil => simp at low_length
    | append_singleton low word _ =>
      have lower_length : low.length = count := by simpa using low_length
      have loaded : load (low ++ [word] ++ high) count = .ok word := by
        rw [← lower_length, List.append_assoc, List.singleton_append, load_cut]
      have four : (wordBytes word).length = (rest.take 4).length := by
        rw [List.length_take]
        change 4 = _
        omega
      have stored : putUnalignedBe32 word (done ++ rest) ptr =
          .ok (done ++ wordBytes word ++ rest.drop 4) := by
        have put := storeAll_cut done (rest.take 4) (rest.drop 4) (wordBytes word) four
        rwa [List.take_append_drop, done_length, ← List.append_assoc] at put
      obtain ⟨written, run, length, equation⟩ := @induction (ptr + 1) low (word :: high)
        (done ++ wordBytes word) (rest.drop 4) lower_length
        (by rw [List.length_append, done_length]; rfl)
        (by rw [List.length_drop, rest_length]; omega)
      refine ⟨wordBytes word ++ written, ?_, ?_, ?_⟩
      · rw [toBigEndian, loaded, Exec.ok_bind, stored, Exec.ok_bind, List.append_assoc low,
          List.singleton_append, ← List.append_assoc]
        exact run
      · rw [List.length_append, length]
        change 4 + _ = _
        omega
      · rw [bigEndian_append, equation, bigEndian_wordBytes, value_concat, length,
          lower_length, Nat.add_comm, show 256 = 2 ^ 8 from rfl, ← Nat.pow_mul,
          ← Nat.mul_assoc]

end Bytes

/-! ## The exponentiation -/

section Exponent

variable {key : RsaPublicKey}

/-- An array holds a power in Montgomery form and is zero only for a signature that is. -/
structure HoldsPower (valid : key.Valid) (signature power : Nat) (words : List UInt32) : Prop where
  length : words.length = key.len.toNat
  represents : valid.reducing.reduction.Represents power (value words)
  zero : value words = 0 ↔ signature = 0

theorem HoldsPower.square {valid : key.Valid} {signature power : Nat}
    (holds : HoldsPower valid signature power acc) (sized : tmp.length = key.len.toNat) :
    ∃ written, montgomeryMul key tmp acc acc = .ok written ∧
      HoldsPower valid signature (power * power) written := by
  obtain ⟨written, run, length, equation⟩ :=
    montgomeryMul_value valid.reducing holds.length holds.length sized
  refine ⟨written, run, length, ?_, ?_⟩
  · rw [equation]
    exact holds.represents.product holds.represents (by rw [List.length_map, holds.length]; rfl)
  · rw [equation, Reduction.product_eq_zero_iff (by decide)]
    exact or_self_iff.trans holds.zero

theorem HoldsPower.squareLoop {valid : key.Valid} {signature power turns : Nat}
    {acc tmp : List UInt32} (holds : HoldsPower valid signature power acc)
    (sized : tmp.length = key.len.toNat) :
    ∃ acc' tmp', squareLoop key turns acc tmp = .ok (acc', tmp') ∧
      HoldsPower valid signature (power ^ 4 ^ turns) acc' ∧ tmp'.length = key.len.toNat := by
  induction turns generalizing power acc tmp with
  | zero =>
    refine ⟨acc, tmp, rfl, ?_, sized⟩
    rwa [Nat.pow_zero, Nat.pow_one]
  | succ turns induction =>
    obtain ⟨tmp', first, squared⟩ := holds.square sized
    obtain ⟨acc', second, fourth⟩ := squared.square holds.length
    obtain ⟨final, stale, run, power_eq, length⟩ := induction fourth squared.length
    refine ⟨final, stale, ?_, ?_, length⟩
    · rw [Signature.squareLoop, first, Exec.ok_bind, second, Exec.ok_bind, run]
    · have exponent : (power * power * (power * power)) ^ 4 ^ turns = power ^ 4 ^ (turns + 1) := by
        rw [← Nat.pow_two, ← Nat.pow_two, ← Nat.pow_mul, ← Nat.pow_mul, Nat.pow_succ 4 turns,
          Nat.mul_comm (4 ^ turns), ← Nat.mul_assoc]
      rwa [exponent] at power_eq

theorem RsaPublicKey.Valid.rr_ne_zero (valid : key.Valid) : value key.rr ≠ 0 := by
  have someWords := valid.someWords
  have large : 2 ^ 1 ≤ 2 ^ (32 * key.len.toNat - 1) := Nat.pow_le_pow_right (by decide) (by omega)
  have full := valid.full
  rw [valid.rr]
  intro divides
  have coprime : (value key.modulus).Coprime (2 ^ (64 * key.len.toNat)) :=
    (Nat.coprime_two_right.mpr valid.odd).pow_right _
  have one := coprime.eq_one_of_dvd (Nat.dvd_of_mod_eq_zero divides)
  omega

theorem holdsPower_enter (valid : key.Valid)
    (val_length : val.length = key.len.toNat) (acc_length : acc.length = key.len.toNat) :
    ∃ written, montgomeryMul key acc val key.rr = .ok written ∧
      HoldsPower valid (value val) (value val) written := by
  obtain ⟨written, run, length, equation⟩ :=
    montgomeryMul_value valid.reducing val_length valid.rrLength acc_length
  have squared :
      value key.rr ≡ valid.reducing.reduction.range ^ 2 [MOD valid.reducing.reduction.modulus] := by
    rw [valid.rr, valid.reducing.range_eq, ← Nat.pow_mul, Nat.mul_right_comm]
    exact Nat.mod_modEq _ _
  refine ⟨written, run, length, ?_, ?_⟩
  · rw [equation]
    exact Reduction.represents_enter squared (by rw [List.length_map, val_length]; rfl)
  · rw [equation, Reduction.product_eq_zero_iff (by decide)]
    exact or_iff_left valid.rr_ne_zero

theorem powMod_product (valid : key.Valid) (stack : Nat → UInt32)
    (inout_length : inout.length = 4 * key.len.toNat) :
    ∃ result, result.length = key.len.toNat ∧
      value result ≡ bigEndian inout ^ 65537 [MOD value key.modulus] ∧
      (value result = 0 ↔ bigEndian inout = 0) ∧
      powMod stack key inout = (do
        let greaterEqual ← greaterEqualModulus key result
        let result ← if greaterEqual then subtractModulus key result else .ok result
        let inout ← toBigEndian result key.len.toNat 0 inout
        return (0, inout)) := by
  have sized (start : Nat) : (stackWords stack start key.len.toNat).length = key.len.toNat := by
    rw [stackWords, List.length_map, List.length_range']
  obtain ⟨val, converted, val_length, val_eq⟩ :=
    @fromBigEndian_cut key.len.toNat [] (stackWords stack 0 key.len.toNat) inout []
      inout_length (sized 0)
  rw [List.append_nil, List.nil_append] at converted
  obtain ⟨acc, entered, holds⟩ := holdsPower_enter valid val_length (sized key.len.toNat)
  obtain ⟨acc, tmp, squared, holds, tmp_length⟩ :=
    @HoldsPower.squareLoop key valid (value val) (value val) 8 acc _ holds
      (sized (2 * key.len.toNat))
  obtain ⟨result, multiplied, length, equation⟩ :=
    montgomeryMul_value valid.reducing holds.length val_length tmp_length
  refine ⟨result, length, ?_, ?_, ?_⟩
  · have exponent : bigEndian inout ^ 65537 = value val ^ 4 ^ 8 * value val := by
      have turns : 65537 = 4 ^ 8 + 1 := by norm_num
      rw [val_eq, turns, Nat.pow_succ]
    rw [equation, exponent]
    exact holds.represents.leave (by rw [List.length_map, holds.length]; rfl)
  · rw [equation, Reduction.product_eq_zero_iff (by decide), ← val_eq]
    exact (or_congr holds.zero Iff.rfl).trans or_self_iff
  · change fromBigEndian inout key.len.toNat 0 (key.len.toNat - 1) _ = .ok val at converted
    simp only [powMod, if_neg (Nat.not_lt.mpr valid.fewWords), converted, Exec.ok_bind, entered,
      squared, multiplied]

end Exponent

/-- A power is a multiple of a number that is small for the exponent when all prime
factors of the number divide the base. -/
theorem dvd_pow_iff (positive : number ≠ 0) (small : number < 2 ^ exponent) :
    number ∣ base ^ exponent ↔ ∀ prime, prime.Prime → prime ∣ number → prime ∣ base := by
  constructor
  · intro divides prime isPrime factor
    exact isPrime.dvd_of_dvd_pow (factor.trans divides)
  · intro factors
    have exponent_pos : exponent ≠ 0 := by
      intro zero
      rw [zero] at small
      omega
    by_cases zero : base = 0
    · rw [zero, Nat.zero_pow (Nat.pos_of_ne_zero exponent_pos)]
      exact Nat.dvd_zero _
    · apply (Nat.factorization_prime_le_iff_dvd positive (pow_ne_zero _ zero)).mp
      intro prime isPrime
      rw [Nat.factorization_pow, Finsupp.smul_apply]
      by_cases factor : prime ∣ number
      · have once := isPrime.factorization_pos_of_dvd zero (factors prime isPrime factor)
        have power : 2 ^ number.factorization prime < 2 ^ exponent :=
          calc 2 ^ number.factorization prime
              ≤ prime ^ number.factorization prime := Nat.pow_le_pow_left isPrime.two_le _
            _ ≤ number := Nat.ordProj_le prime positive
            _ < 2 ^ exponent := small
        calc number.factorization prime ≤ exponent * 1 := by
              rw [Nat.mul_one]
              exact ((Nat.pow_lt_pow_iff_right (by decide)).mp power).le
          _ ≤ exponent * base.factorization prime := Nat.mul_le_mul_left _ once
      · rw [Nat.factorization_eq_zero_of_not_dvd factor]
        exact Nat.zero_le _

/-! ## The result -/

variable {result : List UInt32}

section Result

variable {key : RsaPublicKey} {stack : Nat → UInt32} {inout : List UInt8}

/-- The operation returns and leaves the power of the signature, with no access
outside its arrays. -/
def PowModExact (stack : Nat → UInt32) (key : RsaPublicKey) (inout : List UInt8) : Prop :=
  ∃ out, powMod stack key inout = .ok (0, out) ∧ out.length = inout.length ∧
    bigEndian out = bigEndian inout ^ 65537 % value key.modulus

theorem RsaPublicKey.Valid.modulus_pos (valid : key.Valid) : 0 < value key.modulus :=
  lt_of_lt_of_le (Nat.two_pow_pos _) valid.full

/-- The modulus fills its words, so that a number of so many words holds it at most once. -/
theorem RsaPublicKey.Valid.value_lt_twice (valid : key.Valid)
    (length : words.length = key.len.toNat) : value words < 2 * value key.modulus := by
  have bound : value words < 2 ^ (32 * words.length) := value_lt
  have someWords := valid.someWords
  have full := valid.full
  rw [length, show 32 * key.len.toNat = 32 * key.len.toNat - 1 + 1 by omega] at bound
  omega

theorem correct_result (valid : key.Valid) (length : result.length = key.len.toNat)
    (different : value result ≠ value key.modulus)
    (next : List UInt32 → Exec Result) :
    ∃ final, (do
        let greaterEqual ← greaterEqualModulus key result
        let result ← if greaterEqual then subtractModulus key result else .ok result
        next result) = next final ∧
      final.length = key.len.toNat ∧ value final = value result % value key.modulus := by
  have short : key.len.toNat < 2 ^ 32 - 1 := lt_of_le_of_lt valid.fewWords (by decide)
  have twice := valid.value_lt_twice length
  rw [greaterEqualModulus_eq valid.modulusLength length short, if_neg different, Exec.ok_bind]
  by_cases above : value key.modulus < value result
  · obtain ⟨final, run, finalLength, equation⟩ := subtractModulus_value valid.modulusLength length
    refine ⟨final, ?_, finalLength, ?_⟩
    · rw [decide_eq_true above, if_pos rfl, run, Exec.ok_bind]
    · rw [equation, if_pos above.le, Nat.mod_eq_sub_mod above.le, Nat.mod_eq_of_lt (by omega)]
  · refine ⟨result, ?_, length, ?_⟩
    · rw [decide_eq_false above]
      rfl
    · rw [Nat.mod_eq_of_lt (by omega)]

theorem eq_modulus_iff (valid : key.Valid) (length : result.length = key.len.toNat)
    (power : value result ≡ signature ^ 65537 [MOD value key.modulus])
    (zero : value result = 0 ↔ signature = 0) :
    value result = value key.modulus ↔ signature ≠ 0 ∧ value key.modulus ∣ signature ^ 65537 := by
  have positive := valid.modulus_pos
  have twice := valid.value_lt_twice length
  constructor
  · intro equal
    rw [equal] at power zero
    refine ⟨fun none => positive.ne' (zero.mpr none), ?_⟩
    exact (power.dvd_iff dvd_rfl).mp dvd_rfl
  · intro ⟨nonzero, divides⟩
    obtain ⟨times, times_eq⟩ := (power.dvd_iff dvd_rfl).mpr divides
    have some : times ≠ 0 := by
      intro none
      rw [none] at times_eq
      exact nonzero (zero.mp times_eq)
    have few : times < 2 := by
      apply lt_of_mul_lt_mul_left _ positive.le
      rw [← times_eq, Nat.mul_comm]
      exact twice
    rw [times_eq, show times = 1 by omega, Nat.mul_one]

theorem RsaPublicKey.Valid.modulus_small (valid : key.Valid)
    (large : 2048 ≤ exponent) : value key.modulus < 2 ^ exponent := by
  have bound : value key.modulus < 2 ^ (32 * key.modulus.length) := value_lt
  have fewWords : key.len.toNat ≤ 64 := valid.fewWords
  rw [valid.modulusLength] at bound
  exact bound.trans_le (Nat.pow_le_pow_right (by decide) (by omega))

/-- The operation leaves its arrays for the nonzero signatures that all prime
factors of the modulus divide, and is exact for every other signature. -/
theorem powMod_exact_iff (valid : key.Valid) (length : inout.length = 4 * key.len.toNat) :
    PowModExact stack key inout ↔ bigEndian inout = 0 ∨
      ∃ prime, prime.Prime ∧ prime ∣ value key.modulus ∧ ¬ prime ∣ bigEndian inout := by
  obtain ⟨result, result_length, power, zero, run⟩ := powMod_product valid stack length
  have equal_iff := eq_modulus_iff valid result_length power zero
  rw [dvd_pow_iff valid.modulus_pos.ne' (valid.modulus_small (by decide))] at equal_iff
  have short : key.len.toNat < 2 ^ 32 - 1 := lt_of_le_of_lt valid.fewWords (by decide)
  by_cases equal : value result = value key.modulus
  · have factors := equal_iff.mp equal
    constructor
    · intro ⟨out, returned, _⟩
      rw [run, greaterEqualModulus_eq valid.modulusLength result_length short, if_pos equal,
        Exec.error_bind] at returned
      cases returned
    · intro exempt
      rcases exempt with none | ⟨prime, isPrime, factor, notDivides⟩
      · exact absurd none factors.1
      · exact absurd (factors.2 prime isPrime factor) notDivides
  · constructor
    · intro _
      by_contra none
      simp only [not_or, not_exists, not_and, not_not] at none
      exact equal (equal_iff.mpr none)
    · intro _
      obtain ⟨final, corrected, final_length, final_eq⟩ :=
        correct_result valid result_length equal fun result => do
          let inout ← toBigEndian result key.len.toNat 0 inout
          return ((0 : Int), inout)
      obtain ⟨out, written, out_length, out_eq⟩ :=
        @toBigEndian_cut key.len.toNat 0 final [] [] inout final_length rfl length
      rw [List.append_nil, List.nil_append, List.nil_append] at written
      refine ⟨out, ?_, out_length.trans length.symm, ?_⟩
      · rw [run, corrected, written]
        rfl
      · rw [out_eq, final_eq]
        exact power

end Result

theorem twoWordKey_valid : twoWordKey.Valid where
  someWords := by decide
  fewWords := by decide
  modulusLength := rfl
  rrLength := rfl
  odd := by decide
  full := by decide
  n0inv := by decide
  rr := by decide

theorem powMod_exact_iff_words : PowModExact (fun _ => 0) twoWordKey
      [0x01, 0x23, 0x45, 0x67, 0x89, 0xab, 0xce, 0xa3] ∧
    powMod (fun _ => 0) twoWordKey [0x01, 0x23, 0x45, 0x67, 0x89, 0xab, 0xce, 0xa3] =
      .ok (0, [0x00, 0x64, 0xdb, 0xae, 0x65, 0x28, 0xa8, 0xae]) :=
  ⟨(powMod_exact_iff twoWordKey_valid rfl).mpr
    (.inr ⟨65521, by norm_num, by decide, by decide⟩), by decide +kernel⟩

def onesKey : RsaPublicKey where
  len := 1
  n0inv := 1
  modulus := [0xffffffff]
  rr := [1]

theorem onesKey_valid : onesKey.Valid where
  someWords := by decide
  fewWords := by decide
  modulusLength := rfl
  rrLength := rfl
  odd := by decide
  full := by decide
  n0inv := by decide
  rr := by decide

/-- The comparison reads the word below the array when the signature is the modulus. -/
theorem modulus_leaves_array :
    onesKey.Valid ∧ powMod (fun _ => 0) onesKey [0xff, 0xff, 0xff, 0xff] = .error .outOfBounds :=
  ⟨onesKey_valid, by decide +kernel⟩

end UBootV210.Signature
