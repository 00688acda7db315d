import UBootV210.Environment.HashTableUpdate

/-! # Creating a table

`hcreate_r` rounds the requested size up to a prime, which is what makes the
second hash function reach every slot. -/

namespace UBootV210.Environment

-- Below `2 ^ 31` the square of a divisor that is still in question does not wrap.
private theorem square_toNat {div : UInt32} (small : div.toNat < 2 ^ 16) :
    (div * div).toNat = div.toNat * div.toNat := by
  apply Nat.mod_eq_of_lt
  calc div.toNat * div.toNat < 2 ^ 16 * 2 ^ 16 := Nat.mul_lt_mul'' small small
    _ = 2 ^ 32 := by norm_num

/-- The divisor search returns an odd divisor, or an odd number whose square
reaches the number, and no smaller odd number from three on divides it. -/
theorem isprimeLoop_spec (fuel : Nat) (div number : UInt32)
    (numberLt : number.toNat < 2 ^ 31) (divLt : div.toNat < 2 ^ 16)
    (odd : div.toNat % 2 = 1) (three : 3 ≤ div.toNat)
    (enough : number.toNat < div.toNat + fuel)
    (passed : ∀ candidate, 3 ≤ candidate → candidate < div.toNat → candidate % 2 = 1 →
      ¬ candidate ∣ number.toNat) :
    let result := isprimeLoop fuel div number
    (number.toNat ≤ result.toNat * result.toNat ∨ result.toNat ∣ number.toNat) ∧ 3 ≤ result.toNat ∧
      ∀ candidate, 3 ≤ candidate → candidate < result.toNat → candidate % 2 = 1 →
        ¬ candidate ∣ number.toNat := by
  induction fuel generalizing div with
  | zero =>
    refine ⟨.inl ?_, three, passed⟩
    simp only [isprimeLoop]
    nlinarith
  | succ fuel induction =>
    simp only [isprimeLoop]
    split
    · rename_i continues
      obtain ⟨squareLt, remainder⟩ := continues
      rw [UInt32.lt_iff_toNat_lt, square_toNat divLt] at squareLt
      have notDvd : ¬ div.toNat ∣ number.toNat := by
        intro divides
        apply remainder
        apply UInt32.toNat_inj.mp
        rw [UInt32.toNat_mod]
        exact Nat.mod_eq_zero_of_dvd divides
      have smaller : div.toNat < 46341 := by nlinarith
      have next : (div + 2).toNat = div.toNat + 2 := by
        rw [UInt32.toNat_add]
        apply Nat.mod_eq_of_lt
        change div.toNat + 2 < 2 ^ 32
        omega
      apply induction
      · omega
      · omega
      · omega
      · omega
      · intro candidate lower below oddCandidate
        rcases Nat.lt_or_ge candidate div.toNat with earlier | later
        · exact passed candidate lower earlier oddCandidate
        · have same : candidate = div.toNat := by omega
          rw [same]
          exact notDvd
    · rename_i stops
      refine ⟨?_, three, passed⟩
      by_contra neither
      rw [not_or, not_le] at neither
      apply stops
      constructor
      · rw [UInt32.lt_iff_toNat_lt, square_toNat divLt]
        exact neither.1
      · intro remainder
        apply neither.2
        apply Nat.dvd_of_mod_eq_zero
        rw [← UInt32.toNat_mod, remainder]
        rfl

theorem prime_of_isprime (numberLt : number.toNat < 2 ^ 31)
    (odd : number.toNat % 2 = 1) (two : 2 ≤ number.toNat)
    (accepted : isprime number = true) : number.toNat.Prime := by
  have spec := isprimeLoop_spec number.toNat 3 number numberLt (by decide) (by decide)
    (by decide) (by change _ < 3 + _; omega)
    (fun candidate lower below => absurd below (by change ¬ candidate < 3; omega))
  obtain ⟨stopped, three, passed⟩ := spec
  have notDvd : ¬ (isprimeLoop number.toNat 3 number).toNat ∣ number.toNat := by
    intro divides
    simp only [isprime, ne_eq, decide_not, Bool.not_eq_true', decide_eq_false_iff_not] at accepted
    apply accepted
    apply UInt32.toNat_inj.mp
    exact Nat.mod_eq_zero_of_dvd divides
  have reached := stopped.resolve_right notDvd
  by_contra composite
  -- The least prime factor would have been met before the loop stopped.
  have factorPrime := Nat.minFac_prime (by omega : number.toNat ≠ 1)
  have factorDvd := Nat.minFac_dvd number.toNat
  have square := Nat.minFac_sq_le_self (by omega) composite
  have factorOdd : number.toNat.minFac % 2 = 1 := by
    rcases factorPrime.eq_two_or_odd with even | isOdd
    · rw [even] at factorDvd
      omega
    · exact isOdd
  have factorThree : 3 ≤ number.toNat.minFac := by
    have := factorPrime.two_le
    omega
  have notBelow : ¬ number.toNat.minFac < (isprimeLoop number.toNat 3 number).toNat :=
    fun below => passed _ factorThree below factorOdd factorDvd
  have different : number.toNat.minFac ≠ (isprimeLoop number.toNat 3 number).toNat := by
    intro same
    rw [same] at factorDvd
    exact notDvd factorDvd
  nlinarith [Nat.lt_of_le_of_ne (not_lt.mp notBelow) (Ne.symm different)]

def emptyTable (size : UInt32) : HSearchData where
  table _ := .cleared
  size := size
  filled := 0

-- A run of the size search, with what the proof needs of its result.
private def roundsToPrime (nel : Nat) : Bool :=
  match nextPrime nel (UInt32.ofNat nel ||| 1) with
  | .error _ => false
  | .ok size =>
      isprime size && size.toNat % 2 == 1 && decide (nel ≤ size.toNat) &&
        decide (size.toNat ≤ 521)

private theorem roundsToPrime_importRange :
    ((List.range 449).all fun offset => roundsToPrime (offset + 64)) = true := by
  decide +kernel

/-- Every size that `himport_r` asks for gives a table of prime size. -/
theorem hcreateR_importRange {nel : UInt32} (lower : 64 ≤ nel.toNat) (upper : nel.toNat ≤ 512) :
    ∃ size, hcreateR nel true = .ok (some (emptyTable size)) ∧ ValidSize size ∧
      nel.toNat ≤ size.toNat ∧ size.toNat ≤ 521 := by
  have rounds := List.all_eq_true.mp roundsToPrime_importRange (nel.toNat - 64)
    (List.mem_range.mpr (by omega))
  rw [Nat.sub_add_cancel lower, roundsToPrime, UInt32.ofNat_toNat] at rounds
  cases found : nextPrime nel.toNat (nel ||| 1) with
  | error fault => simp [found] at rounds
  | ok size =>
    simp only [found, Bool.and_eq_true, decide_eq_true_eq, beq_iff_eq] at rounds
    obtain ⟨⟨⟨accepted, odd⟩, lowerSize⟩, upperSize⟩ := rounds
    refine ⟨size, ?_, ⟨prime_of_isprime (by omega) odd (by omega) accepted, by omega⟩,
      lowerSize, upperSize⟩
    simp [hcreateR, found, emptyTable]

theorem emptyTable_invariant (valid : ValidSize size) : (emptyTable size).Invariant := by
  have cells : (emptyTable size).cells = fun _ => .free := by
    funext index
    rfl
  have searchable : (emptyTable size).Searchable := by
    refine ⟨valid, fun _ _ _ => .inl rfl, ?_⟩
    exact OpenAddressing.valid_of_forall_not_live fun _ => rfl
  refine ⟨searchable, ?_⟩
  rw [cells]
  simp [OpenAddressing.liveIndices, emptyTable]

theorem emptyTable_absent (size : UInt32) (key : CString) : (emptyTable size).Absent key := by
  rintro value ⟨index, _, _, live⟩
  cases live

end UBootV210.Environment
