import UBootV210.Library.Vsprintf

/-! # Numbers that are printed

`put_dec` and `number` of lib/vsprintf.c, for the formats that print an unsigned number of
64 bits, and the way back through `simple_strtoull`. -/

namespace UBootV210.Library

/-! ## `put_dec` -/

def digit (d : Nat) : UInt8 := UInt8.ofNat (48 + d)

/-- What `put_dec_trunc` and `put_dec_full` compute: the digits, and for the second to the
fourth one what is left before the digit is split off. -/
structure Split where
  d0 : Nat
  left1 : Nat
  d1 : Nat
  left2 : Nat
  d2 : Nat
  left3 : Nat
  d3 : Nat
  d4 : Nat
  /-- The highest hexadecimal digit. -/
  nibble3 : Nat

def splitDigits (q : Nat) : Split :=
  let d1 := (q >>> 4) &&& 0xf
  let d2 := (q >>> 8) &&& 0xf
  let d3 := q >>> 12
  let d0 := 6 * (d3 + d2 + d1) + (q &&& 0xf)
  let q0 := (d0 * 0xcd) >>> 11
  let left1 := q0 + 9 * d3 + 5 * d2 + d1
  let q1 := (left1 * 0xcd) >>> 11
  let left2 := q1 + 2 * d2
  let q2 := (left2 * 0xd) >>> 7
  let left3 := q2 + 4 * d3
  let q3 := (left3 * 0xcd) >>> 11
  ⟨d0 - 10 * q0, left1, left1 - 10 * q1, left2, left2 - 10 * q2, left3, left3 - 10 * q3, q3, d3⟩

def putDecTrunc (q : Nat) : List UInt8 :=
  let s := splitDigits q
  digit s.d0 ::
    if s.left1 ≠ 0 then
      digit s.d1 ::
        if s.left2 ≠ 0 ∨ s.nibble3 ≠ 0 then
          digit s.d2 ::
            if s.left3 ≠ 0 then
              digit s.d3 :: if s.d4 ≠ 0 then [digit s.d4] else []
            else []
        else []
    else []

def putDecFull (q : Nat) : List UInt8 :=
  let s := splitDigits q
  [digit s.d0, digit s.d1, digit s.d2, digit s.d3, digit s.d4]

/-- Five digits in each turn; a number of 64 bits has at most four. -/
def putDec : Nat → Nat → List UInt8
  | 0, num => putDecTrunc num
  | turns + 1, num =>
      if num < 100000 then putDecTrunc num
      else putDecFull (num % 100000) ++ putDec turns (num / 100000)

/-! ## `number` -/

def putMasked (shift : Nat) (locase : UInt8) : Nat → Nat → List UInt8
  | 0, _ => []
  | fuel + 1, num =>
      let value := num % 2 ^ shift
      (if value < 10 then digit value else UInt8.ofNat (55 + value) ||| locase) ::
        if num >>> shift ≠ 0 then putMasked shift locase fuel (num >>> shift) else []

/-- `number` without a sign, a prefix and a precision. -/
def number (num : UInt64) (base size : Nat) (zeropad small : Bool) : List UInt8 :=
  let tmp :=
    if num = 0 then [48]
    else if base ≠ 10 then
      putMasked (if base = 16 then 4 else 3) (if small then 0x20 else 0) 64 num.toNat
    else putDec 3 num.toNat
  List.replicate (size - tmp.length) (if zeropad then 48 else 32) ++ tmp.reverse

def decimal (num : UInt64) : List UInt8 := number num 10 0 false false

def hexadecimal8 (num : UInt64) : List UInt8 := number num 16 8 true true

/-! ## The decimal digits -/

def decimalDigits : Nat → Nat → List UInt8
  | 0, _ => []
  | fuel + 1, number =>
      (if number < 10 then [] else decimalDigits fuel (number / 10)) ++ [digit (number % 10)]

def lowDigits : Nat → Nat → List UInt8
  | 0, _ => []
  | count + 1, number => digit (number % 10) :: lowDigits count (number / 10)

-- The approximate divisions are exact in the range that occurs.
theorem mul_cd_shiftRight (small : sum < 400) : (sum * 0xcd) >>> 11 = sum / 10 := by
  omega

theorem mul_d_shiftRight (small : sum < 69) : (sum * 0xd) >>> 7 = sum / 10 := by
  omega

/-- The hexadecimal digits, summed up by their decimal places. -/
structure Split.Of (q : Nat) (s : Split) : Prop where
  d0 : s.d0 = q % 10
  d1 : s.d1 = q / 10 % 10
  d2 : s.d2 = q / 100 % 10
  d3 : s.d3 = q / 1000 % 10
  d4 : s.d4 = q / 10000
  left1 : s.left1 ≠ 0 ↔ 10 ≤ q
  left2 : (s.left2 ≠ 0 ∨ s.nibble3 ≠ 0) ↔ 100 ≤ q
  left3 : s.left3 ≠ 0 ↔ 1000 ≤ q

variable {q : Nat}

theorem splitDigits_of (small : q < 100000) : (splitDigits q).Of q := by
  obtain ⟨n0, lowest⟩ : ∃ n0, q &&& 0xf = n0 := ⟨_, rfl⟩
  obtain ⟨n1, first⟩ : ∃ n1, (q >>> 4) &&& 0xf = n1 := ⟨_, rfl⟩
  obtain ⟨n2, second⟩ : ∃ n2, (q >>> 8) &&& 0xf = n2 := ⟨_, rfl⟩
  obtain ⟨n3, third⟩ : ∃ n3, q >>> 12 = n3 := ⟨_, rfl⟩
  have sum : q = n0 + 16 * n1 + 256 * n2 + 4096 * n3 ∧ n0 < 16 ∧ n1 < 16 ∧ n2 < 16 := by
    rw [Nat.and_two_pow_sub_one_eq_mod q 4] at lowest
    rw [Nat.and_two_pow_sub_one_eq_mod _ 4] at first second
    omega
  obtain ⟨q0, tens0⟩ : ∃ q0, ((6 * (n3 + n2 + n1) + n0) * 0xcd) >>> 11 = q0 := ⟨_, rfl⟩
  obtain ⟨q1, tens1⟩ : ∃ q1, ((q0 + 9 * n3 + 5 * n2 + n1) * 0xcd) >>> 11 = q1 := ⟨_, rfl⟩
  obtain ⟨q2, tens2⟩ : ∃ q2, ((q1 + 2 * n2) * 0xd) >>> 7 = q2 := ⟨_, rfl⟩
  obtain ⟨q3, tens3⟩ : ∃ q3, ((q2 + 4 * n3) * 0xcd) >>> 11 = q3 := ⟨_, rfl⟩
  have split : splitDigits q = ⟨6 * (n3 + n2 + n1) + n0 - 10 * q0, q0 + 9 * n3 + 5 * n2 + n1,
      q0 + 9 * n3 + 5 * n2 + n1 - 10 * q1, q1 + 2 * n2, q1 + 2 * n2 - 10 * q2, q2 + 4 * n3,
      q2 + 4 * n3 - 10 * q3, q3, n3⟩ := by
    simp only [splitDigits, lowest, first, second, third, tens0, tens1, tens2, tens3]
  rw [mul_cd_shiftRight (by omega)] at tens0
  rw [mul_cd_shiftRight (by omega)] at tens1
  rw [mul_d_shiftRight (by omega)] at tens2
  clear lowest first second third
  rw [split]
  have d0 : 6 * (n3 + n2 + n1) + n0 - 10 * q0 = q % 10 := by omega
  have over100 : q / 100 = q1 + 2 * n2 + 40 * n3 := by omega
  have over1000 : q / 1000 = q2 + 4 * n3 := by omega
  have over10000 : q / 10000 = q3 := by omega
  constructor
  · exact d0
  · dsimp only
    omega
  · dsimp only
    omega
  · dsimp only
    omega
  · exact over10000.symm
  · dsimp only
    omega
  · dsimp only
    omega
  · dsimp only
    omega

/-- The 32-bit words of `put_dec_trunc` and `put_dec_full` hold the numbers of `splitDigits`:
no difference is negative, and no product is too large. -/
def WordsFit (q : Nat) : Prop :=
  let d1 := (q >>> 4) &&& 0xf
  let d2 := (q >>> 8) &&& 0xf
  let d3 := q >>> 12
  let d0 := 6 * (d3 + d2 + d1) + (q &&& 0xf)
  let left1 := (d0 * 0xcd) >>> 11 + 9 * d3 + 5 * d2 + d1
  let left2 := (left1 * 0xcd) >>> 11 + 2 * d2
  let left3 := (left2 * 0xd) >>> 7 + 4 * d3
  (∀ left ∈ [d0, left1, left3], 10 * ((left * 0xcd) >>> 11) ≤ left ∧ left * 0xcd < 2 ^ 32) ∧
    10 * ((left2 * 0xd) >>> 7) ≤ left2 ∧ left2 * 0xd < 2 ^ 32

theorem wordsFit (small : q < 100000) : WordsFit q := by
  have low (number : Nat) : number &&& 0xf < 16 := Nat.and_lt_two_pow _ (by decide : _ < 2 ^ 4)
  have low0 := low q
  have low1 := low (q >>> 4)
  have low2 := low (q >>> 8)
  simp only [WordsFit, List.forall_mem_cons, List.not_mem_nil, false_implies, implies_true,
    and_true]
  generalize q &&& 0xf = n0 at *
  generalize q >>> 4 &&& 0xf = n1 at *
  generalize q >>> 8 &&& 0xf = n2 at *
  rw [mul_cd_shiftRight (by omega), mul_cd_shiftRight (by omega), mul_d_shiftRight (by omega),
    mul_cd_shiftRight (by omega)]
  omega

theorem putDecFull_eq (small : q < 100000) : putDecFull q = lowDigits 5 q := by
  have s := splitDigits_of small
  have top : q / 10000 % 10 = q / 10000 := by omega
  simp only [putDecFull, lowDigits, s.d0, s.d1, s.d2, s.d3, s.d4, Nat.div_div_eq_div_mul, top]

variable {fuel number : Nat}

theorem decimalDigits_of_lt (single : number < 10) :
    decimalDigits (fuel + 1) number = [digit number] := by
  rw [decimalDigits, if_pos single, Nat.mod_eq_of_lt single]
  rfl

theorem reverse_decimalDigits (more : ¬ number < 10) : (decimalDigits (fuel + 1) number).reverse =
      digit (number % 10) :: (decimalDigits fuel (number / 10)).reverse := by
  rw [decimalDigits, if_neg more, List.reverse_append]
  rfl

theorem putDecTrunc_eq (small : q < 100000) :
    putDecTrunc q = (decimalDigits (fuel + 5) q).reverse := by
  have s := splitDigits_of small
  rw [putDecTrunc]
  simp only [s.d0, s.d1, s.d2, s.d3, s.d4, s.left1, s.left2, s.left3]
  by_cases ten : 10 ≤ q
  · rw [if_pos ten, reverse_decimalDigits (by omega)]
    by_cases hundred : 100 ≤ q
    · rw [if_pos hundred, reverse_decimalDigits (by omega)]
      by_cases thousand : 1000 ≤ q
      · rw [if_pos thousand, reverse_decimalDigits (by omega)]
        simp only [Nat.div_div_eq_div_mul, Nat.reduceMul]
        by_cases last : q / 10000 ≠ 0
        · have top : decimalDigits (fuel + 1) (q / 10000) = [digit (q / 10000)] :=
            decimalDigits_of_lt (by omega)
          rw [if_pos last, reverse_decimalDigits (by omega), Nat.div_div_eq_div_mul, top]
          rfl
        · have top : decimalDigits (fuel + 2) (q / 1000) = [digit (q / 1000)] :=
            decimalDigits_of_lt (by omega)
          rw [if_neg last, top, Nat.mod_eq_of_lt (by omega : q / 1000 < 10)]
          rfl
      · have top : decimalDigits (fuel + 3) (q / 10 / 10) = [digit (q / 10 / 10)] :=
          decimalDigits_of_lt (by omega)
        rw [if_neg thousand, top, Nat.div_div_eq_div_mul,
          Nat.mod_eq_of_lt (by omega : q / 100 < 10)]
        rfl
    · have top : decimalDigits (fuel + 4) (q / 10) = [digit (q / 10)] :=
        decimalDigits_of_lt (by omega)
      rw [if_neg hundred, top, Nat.mod_eq_of_lt (by omega : q / 10 < 10)]
      rfl
  · rw [if_neg ten, decimalDigits_of_lt (by omega), Nat.mod_eq_of_lt (by omega)]
    rfl

theorem reverse_decimalDigits_add {fuel number : Nat} (large : 100000 ≤ number) :
    (decimalDigits (fuel + 5) number).reverse =
      lowDigits 5 (number % 100000) ++ (decimalDigits fuel (number / 100000)).reverse := by
  have place0 : number % 100000 % 10 = number % 10 := by omega
  have place1 : number % 100000 / 10 % 10 = number / 10 % 10 := by omega
  have place2 : number % 100000 / 100 % 10 = number / 100 % 10 := by omega
  have place3 : number % 100000 / 1000 % 10 = number / 1000 % 10 := by omega
  have place4 : number % 100000 / 10000 % 10 = number / 10000 % 10 := by omega
  rw [reverse_decimalDigits (by omega), reverse_decimalDigits (by omega),
    reverse_decimalDigits (by omega), reverse_decimalDigits (by omega),
    reverse_decimalDigits (by omega)]
  simp only [lowDigits, Nat.div_div_eq_div_mul, Nat.reduceMul, List.cons_append, List.nil_append,
    place0, place1, place2, place3, place4]

theorem putDec_eq (small : num < 100000 ^ (turns + 1)) :
    putDec turns num = (decimalDigits (5 * turns + 5) num).reverse := by
  induction turns generalizing num with
  | zero => exact putDecTrunc_eq small
  | succ turns induction =>
    rw [putDec]
    split
    case isTrue few => exact putDecTrunc_eq few
    case isFalse many =>
      have fewer : num / 100000 < 100000 ^ (turns + 1) := by
        rw [Nat.div_lt_iff_lt_mul (by omega)]
        exact small
      have whole := @reverse_decimalDigits_add (5 * turns + 5) num (by omega)
      rw [Nat.mul_succ, whole, putDecFull_eq (Nat.mod_lt _ (by omega)), induction fewer]

theorem reverse_decimalDigits_eq (positive : 0 < number) (enough : number < 10 ^ fuel) :
    (decimalDigits fuel number).reverse = (Nat.digits 10 number).map digit := by
  induction fuel generalizing number with
  | zero => omega
  | succ fuel induction =>
    rw [Nat.digits_def' (by decide) positive, List.map_cons]
    by_cases single : number < 10
    · rw [decimalDigits_of_lt single, Nat.mod_eq_of_lt single, Nat.div_eq_of_lt single]
      rfl
    · have fewer : number / 10 < 10 ^ fuel := by
        rw [Nat.div_lt_iff_lt_mul (by decide)]
        exact enough
      rw [reverse_decimalDigits single, induction (by omega) fewer]

/-- `put_dec` writes the decimal digits of a number, the lowest first and no zeros behind the
highest one; every part that it splits into digits fits the words. -/
theorem putDec_exact (num : UInt64) : putDec 3 num.toNat =
      (if num = 0 then [48] else (Nat.digits 10 num.toNat).map digit) ∧
    ∀ q < 100000, WordsFit q := by
  have small : num.toNat < 2 ^ 64 := num.toNat_lt
  refine ⟨?_, fun q => wordsFit⟩
  rw [putDec_eq (by omega)]
  split
  · rename_i zero
    rw [zero]
    rfl
  · rename_i nonzero
    apply reverse_decimalDigits_eq _ (by omega)
    rw [Nat.pos_iff_ne_zero, ← UInt64.toNat_zero]
    exact mt UInt64.toNat_inj.mp nonzero

theorem decimal_eq : decimal num = decimalDigits 20 num.toNat := by
  have small : num.toNat < 2 ^ 64 := num.toNat_lt
  by_cases zero : num = 0
  · rw [zero]
    rfl
  · rw [decimal, number, if_neg zero, if_neg (by simp), putDec_eq (by omega), List.reverse_reverse]
    simp

theorem toNat_digit (small : d < 10) : (digit d).toNat = 48 + d := by
  rw [digit, UInt8.toNat_ofNat']
  omega

theorem hexDigit_digit (small : d < 10) : hexDigit (digit d) = some d := by
  have value := toNat_digit small
  rw [hexDigit, if_pos, value, Nat.add_sub_cancel_left]
  simp only [UInt8.le_iff_toNat_le, value]
  exact ⟨Nat.le_add_right 48 _, by change 48 + d ≤ 57; omega⟩

theorem length_decimalDigits_le {fuel : Nat} (number : Nat) :
    (decimalDigits fuel number).length ≤ fuel := by
  induction fuel generalizing number with
  | zero => exact Nat.le_refl 0
  | succ fuel induction =>
    rw [decimalDigits, List.length_append]
    split
    · simp
    · exact Nat.succ_le_succ (induction _)

theorem length_decimal_le (num : UInt64) : (decimal num).length ≤ 20 := by
  rw [decimal_eq]
  exact length_decimalDigits_le _

theorem mem_decimalDigits (member : byte ∈ decimalDigits fuel number) :
    48 ≤ byte.toNat ∧ byte.toNat ≤ 57 := by
  induction fuel generalizing number with
  | zero => cases member
  | succ fuel induction =>
    rw [decimalDigits, List.mem_append, List.mem_singleton] at member
    rcases member with high | low
    · split at high
      · cases high
      · exact induction high
    · rw [low, toNat_digit (Nat.mod_lt _ (by omega))]
      omega

theorem readDigits_decimalDigits (rest : List UInt8) (enough : number < 10 ^ fuel)
    (some : 0 < fuel) :
    readDigits width 10 (decimalDigits fuel number ++ rest) 0 =
      readDigits width 10 rest (number % 2 ^ width) := by
  induction fuel generalizing number rest with
  | zero => cases some
  | succ fuel induction =>
    have low : number % 10 < 10 := Nat.mod_lt _ (by omega)
    have last : ∀ before, readDigits width 10 (digit (number % 10) :: rest) before =
        readDigits width 10 rest ((before * 10 + number % 10) % 2 ^ width) := by
      intro before
      rw [readDigits, hexDigit_digit low]
      exact if_pos low
    rw [decimalDigits]
    split
    case isTrue single =>
      rw [List.nil_append, List.singleton_append, last, Nat.zero_mul, Nat.zero_add,
        Nat.mod_eq_of_lt single]
    case isFalse more =>
      have fewer : number / 10 < 10 ^ fuel := by
        rw [Nat.div_lt_iff_lt_mul (by omega), ← Nat.pow_succ]
        exact enough
      have positive : 0 < fuel := by
        by_contra none
        rw [Nat.eq_zero_of_not_pos none] at enough
        omega
      rw [List.append_assoc, List.singleton_append, induction _ fewer positive, last]
      congr 1
      rw [Nat.add_mod, Nat.mul_mod, Nat.mod_mod, ← Nat.mul_mod, ← Nat.add_mod]
      congr 1
      omega

theorem decimalDigits_cons (positive : 0 < number) (enough : number < 10 ^ fuel) :
    ∃ first digits, decimalDigits fuel number = first :: digits ∧ first ≠ 48 := by
  induction fuel generalizing number with
  | zero => omega
  | succ fuel induction =>
    rw [decimalDigits]
    split
    case isTrue single =>
      refine ⟨_, [], rfl, ?_⟩
      intro zero
      have value := toNat_digit (Nat.mod_lt number (by omega : 0 < 10))
      rw [zero] at value
      change 48 = 48 + number % 10 at value
      omega
    case isFalse more =>
      have fewer : number / 10 < 10 ^ fuel := by
        rw [Nat.div_lt_iff_lt_mul (by omega)]
        exact enough
      obtain ⟨first, digits, equal, different⟩ := induction (by omega) fewer
      exact ⟨first, _, by rw [equal]; rfl, different⟩

def Stops (rest : List UInt8) : Prop :=
  ∀ first others, rest = first :: others → ∀ value, hexDigit first = some value → 10 ≤ value

theorem readDigits_of_stops (stops : Stops rest)
    (small : base ≤ 10) : readDigits width base rest result = (result, rest) := by
  cases rest with
  | nil => rfl
  | cons first others =>
    rw [readDigits]
    cases found : hexDigit first with
    | none => rfl
    | some value =>
      have large := stops first others rfl value found
      exact if_neg (by omega)

theorem simpleStrtoull_decimal (stops : Stops rest)
    (notHex : num = 0 → ∀ others, rest ≠ 120 :: others) :
    simpleStrtoull (decimal num ++ rest) 0 = (num.toNat, rest) := by
  have small : num.toNat < 2 ^ 64 := num.toNat_lt
  have enough : num.toNat < 10 ^ 20 := by omega
  by_cases zero : num.toNat = 0
  · -- The digit 0 is not read; the text behind it is read as an octal number.
    have printed : decimal num = [48] := by
      rw [decimal_eq, zero]
      rfl
    have octal : simpleStrtoull (48 :: rest) 0 = readDigits 64 8 rest 0 := by
      rw [simpleStrtoull, strtoulOfWidth]
      · rfl
      · intro digit others start
        exact notHex (UInt64.toNat_inj.mp zero) _ start
    rw [printed, List.singleton_append, octal, readDigits_of_stops stops (by omega), zero]
  · obtain ⟨first, digits, equal, different⟩ := decimalDigits_cons (by omega) enough
    have decimalBase : simpleStrtoull (decimal num ++ rest) 0 =
        readDigits 64 10 (decimal num ++ rest) 0 := by
      rw [decimal_eq, equal, simpleStrtoull, strtoulOfWidth]
      · rfl
      · intro _ _ start
        exact different (List.cons.inj start).1
      · intro _ start
        exact different (List.cons.inj start).1
    rw [decimalBase, decimal_eq, readDigits_decimalDigits rest enough (by omega),
      Nat.mod_eq_of_lt small, readDigits_of_stops stops (by omega)]

end UBootV210.Library
