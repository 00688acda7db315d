import UBootV210.Library.Vsprintf

/-! # Addresses in texts

`string_to_ip` of lib/net_utils.c and `eth_parse_enetaddr` of net/eth.c, which read the
numbers of an address one by one with `simple_strtoul`. -/

namespace UBootV210.Library

/-! ## Digits -/

/-- `isdigit` for the base 10, and `isxdigit` for the base 16. -/
def isDigitOf (base : Nat) (character : UInt8) : Bool := (hexDigit character).any (· < base)

def digitsFrom (base : Nat) (before : Nat) (digits : List UInt8) : Nat :=
  digits.foldl (fun number character => number * base + (hexDigit character).getD 0) before

def digitsValue (base : Nat) (digits : List UInt8) : Nat := digitsFrom base 0 digits

def EndsNumber (rest : List UInt8) : Prop :=
  ∀ first others, rest = first :: others → hexDigit first = none ∧ first ≠ 120

section

variable {width base : Nat} {digits rest : List UInt8}

theorem exists_of_isDigitOf (holds : isDigitOf base character = true) :
    ∃ value, hexDigit character = some value ∧ value < base := by
  rw [isDigitOf, Option.any_eq_true] at holds
  obtain ⟨value, found, small⟩ := holds
  exact ⟨value, found, of_decide_eq_true small⟩

theorem readDigits_of_ends (ends : EndsNumber rest) :
    readDigits width base rest result = (result, rest) := by
  cases rest with
  | nil => rfl
  | cons first others => rw [readDigits, (ends first others rfl).1]

section

variable (all : ∀ character ∈ digits, isDigitOf base character = true) (ends : EndsNumber rest)
include all ends

theorem readDigits_append (before : Nat) :
    readDigits width base (digits ++ rest) (before % 2 ^ width) =
      (digitsFrom base before digits % 2 ^ width, rest) := by
  induction digits generalizing before with
  | nil => exact readDigits_of_ends ends
  | cons character digits induction =>
    obtain ⟨value, found, small⟩ := exists_of_isDigitOf (all character List.mem_cons_self)
    have next : (before % 2 ^ width * base + value) % 2 ^ width =
        (before * base + value) % 2 ^ width := by
      rw [Nat.add_mod, Nat.mod_mul_mod, ← Nat.add_mod]
    rw [List.cons_append, readDigits, found]
    dsimp only
    rw [if_pos small, next, induction fun other member => all other (List.mem_cons_of_mem _ member),
      digitsFrom, digitsFrom, List.foldl_cons, found, Option.getD_some]

theorem not_x_of_digits : digits ++ rest ≠ 120 :: others := by
  intro start
  cases digits with
  | nil => exact (ends 120 others start).2 rfl
  | cons character digits =>
    cases start
    obtain ⟨value, found, _⟩ := exists_of_isDigitOf (all 120 List.mem_cons_self)
    cases found

theorem strtoulOfWidth_digits (given : base ≠ 0) :
    strtoulOfWidth width (digits ++ rest) base = (digitsValue base digits % 2 ^ width, rest) := by
  have whole := @readDigits_append width base digits rest all ends 0
  rw [Nat.zero_mod] at whole
  by_cases zero : ∃ others, digits = 48 :: others
  · -- The first digit is skipped.
    obtain ⟨others, rfl⟩ := zero
    have later : ∀ character ∈ others, isDigitOf base character = true :=
      fun character member => all character (List.mem_cons_of_mem _ member)
    have tail := @readDigits_append width base others rest later ends 0
    rw [Nat.zero_mod] at tail
    have value : digitsValue base (48 :: others) = digitsFrom base 0 others := by
      rw [digitsValue, digitsFrom, List.foldl_cons, Nat.zero_mul]
      rfl
    rw [List.cons_append, strtoulOfWidth, if_neg given, tail, value]
    intro digit behind start
    exact not_x_of_digits later ends start
  · rw [strtoulOfWidth.eq_def]
    split
    case h_1 text digit behind start =>
      cases digits with
      | nil => exact absurd (ends 48 _ start).1 (by decide)
      | cons character digits =>
        rw [(List.cons.inj start).1] at zero
        exact absurd ⟨digits, rfl⟩ zero
    case h_2 text behind start =>
      cases digits with
      | nil => exact absurd (ends 48 _ start).1 (by decide)
      | cons character digits =>
        rw [(List.cons.inj start).1] at zero
        exact absurd ⟨digits, rfl⟩ zero
    case h_3 =>
      rw [if_neg given, whole]
      rfl

end

theorem endsNumber_nil : EndsNumber [] := by
  intro first others equal
  cases equal

theorem endsNumber_cons (notDigit : hexDigit separator = none) (notX : separator ≠ 120)
    (rest : List UInt8) : EndsNumber (separator :: rest) := by
  intro first others equal
  cases equal
  exact ⟨notDigit, notX⟩

theorem digitsFrom_lt (all : ∀ character ∈ digits, isDigitOf base character = true) (before : Nat) :
    digitsFrom base before digits < (before + 1) * base ^ digits.length := by
  induction digits generalizing before with
  | nil =>
    change before < (before + 1) * 1
    omega
  | cons character digits induction =>
    obtain ⟨value, found, small⟩ := exists_of_isDigitOf (all character List.mem_cons_self)
    have later := induction (fun other member => all other (List.mem_cons_of_mem _ member))
      (before * base + value)
    rw [digitsFrom, List.foldl_cons, found, List.length_cons, Nat.pow_succ]
    refine lt_of_lt_of_le later ?_
    calc
      (before * base + value + 1) * base ^ digits.length
          ≤ ((before + 1) * base) * base ^ digits.length := by
        apply Nat.mul_le_mul_right
        rw [Nat.add_mul]
        omega
      _ = (before + 1) * (base ^ digits.length * base) := by
        rw [Nat.mul_assoc, Nat.mul_comm base]

theorem strtoulOfWidth_lower (all : ∀ character ∈ digits, isDigitOf 16 character = true)
    (some : digits ≠ []) (ends : EndsNumber rest) :
    strtoulOfWidth width (48 :: 120 :: (digits ++ rest)) base =
      (digitsValue 16 digits % 2 ^ width, rest) := by
  have whole := @readDigits_append width 16 digits rest all ends 0
  rw [Nat.zero_mod] at whole
  obtain ⟨digit, others, equal⟩ := List.exists_cons_of_ne_nil some
  obtain ⟨value, found, _⟩ :=
    exists_of_isDigitOf (all digit (by rw [equal]; exact List.mem_cons_self))
  rw [equal] at whole ⊢
  rw [List.cons_append] at whole ⊢
  rw [strtoulOfWidth, if_pos (by rw [found]; rfl), whole]
  rfl

/-- Only a small x is taken for the start of a hexadecimal number. -/
theorem strtoulOfWidth_upper : strtoulOfWidth width (48 :: 88 :: rest) base = (0, 88 :: rest) := by
  rw [strtoulOfWidth]
  · rfl
  · intro digit others start
    cases start

end

end UBootV210.Library

namespace UBootV210.Net

open Library

/-- Calls of `simple_strtoul`, each behind the character at which the one before has
stopped: the numbers, and the text at `*endp`. -/
def readNumbers (base : Nat) : Nat → List UInt8 → List (Nat × List UInt8)
  | 0, _ => []
  | count + 1, s =>
      let (val, e) := simpleStrtoul s base
      (val, e) :: readNumbers base count (e.drop 1)

def htonl (word : UInt32) : UInt32 :=
  UInt32.ofNat (word.toNat % 256 * 2 ^ 24 + word.toNat / 2 ^ 8 % 256 * 2 ^ 16 +
    word.toNat / 2 ^ 16 % 256 * 2 ^ 8 + word.toNat / 2 ^ 24)

def stringToIp (s : Option CString) : UInt32 :=
  match s with
  | none => 0
  | some s =>
      htonl ((readNumbers 10 4 s.bytes).foldl
        (fun addr call => addr <<< 8 ||| UInt32.ofNat call.1 &&& 0xff) 0)

def ethParseEnetaddr (addr : Option CString) : List UInt8 :=
  match addr with
  | none => List.replicate 6 0
  | some addr => (readNumbers 16 6 addr.bytes).map fun call => UInt8.ofNat call.1

/-- The bytes of an address in memory, that is its dotted form. -/
def ipOctets (addr : UInt32) : List Nat :=
  [addr.toNat % 256, addr.toNat / 2 ^ 8 % 256, addr.toNat / 2 ^ 16 % 256, addr.toNat / 2 ^ 24]

def ipNumbers (text : List UInt8) : List Nat := (text.splitOn 46).map (digitsValue 10)

/-- A hexadecimal number with or without 0x or 0X before it. -/
def hexNumber (field : List UInt8) : Nat :=
  match field with
  | 48 :: 120 :: digits => digitsValue 16 digits
  | 48 :: 88 :: digits => digitsValue 16 digits
  | digits => digitsValue 16 digits

def macNumbers (text : List UInt8) : List Nat := (text.splitOn 58).map hexNumber

theorem toNat_shift_or (addr : UInt32) (val : Nat) :
    (addr <<< 8 ||| UInt32.ofNat val &&& 0xff).toNat = addr.toNat % 2 ^ 24 * 256 + val % 256 := by
  have low : (UInt32.ofNat val &&& 0xff).toNat = val % 256 := by
    change val % 2 ^ 32 &&& (2 ^ 8 - 1) = _
    rw [Nat.and_two_pow_sub_one_eq_mod]
    omega
  have high : (addr <<< 8).toNat = (addr.toNat % 2 ^ 24) <<< 8 := by
    rw [UInt32.toNat_shiftLeft, Nat.shiftLeft_eq]
    change addr.toNat * 2 ^ 8 % 2 ^ 32 = _
    omega
  rw [UInt32.toNat_or, low, high, ← Nat.shiftLeft_add_eq_or_of_lt (by omega), Nat.shiftLeft_eq]

theorem bytes_of_word (second : b < 256) (third : c < 256)
    (fourth : d < 256) (equal : word = ((a * 256 + b) * 256 + c) * 256 + d) :
    word % 256 = d ∧ word / 2 ^ 8 % 256 = c ∧ word / 2 ^ 16 % 256 = b ∧ word / 2 ^ 24 = a := by
  refine ⟨?_, ?_, ?_, ?_⟩
  · omega
  · omega
  · omega
  · omega

theorem ipOctets_htonl (first second third fourth : Nat × List UInt8) :
    ipOctets (htonl ([first, second, third, fourth].foldl
        (fun addr call => addr <<< 8 ||| UInt32.ofNat call.1 &&& 0xff) 0)) =
      [first.1 % 256, second.1 % 256, third.1 % 256, fourth.1 % 256] := by
  obtain ⟨addr, folded⟩ : ∃ addr, addr = [first, second, third, fourth].foldl
      (fun (addr : UInt32) call => addr <<< 8 ||| UInt32.ofNat call.1 &&& 0xff) 0 := ⟨_, rfl⟩
  have small : ∀ number : Nat, number % 256 < 256 := fun number => Nat.mod_lt _ (by decide)
  have value : addr.toNat = ((first.1 % 256 * 256 + second.1 % 256) * 256 + third.1 % 256) * 256 +
      fourth.1 % 256 := by
    have zero : (0 : UInt32).toNat = 0 := rfl
    rw [folded]
    simp only [List.foldl_cons, List.foldl_nil, toNat_shift_or, zero]
    omega
  obtain ⟨low, second', third', high⟩ :=
    bytes_of_word (small _) (small _) (small _) value
  have swapped : (htonl addr).toNat =
      ((fourth.1 % 256 * 256 + third.1 % 256) * 256 + second.1 % 256) * 256 + first.1 % 256 := by
    rw [htonl, low, second', third', high]
    refine (UInt32.toNat_ofNat_of_lt' ?_).trans ?_
    · change _ < 2 ^ 32
      omega
    · omega
  obtain ⟨low, second', third', high⟩ :=
    bytes_of_word (small _) (small _) (small _) swapped
  rw [← folded, ipOctets, low, second', third', high]

end UBootV210.Net
