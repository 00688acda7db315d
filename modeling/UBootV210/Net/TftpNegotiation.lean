import UBootV210.Net.AddressText
import UBootV210.Net.Tftp

/-! # The block size of a TFTP transfer

The reads of the scan of an option acknowledgement, and the block size that the client
has after it. -/

namespace UBootV210.Net.Tftp

open Library

/-- The loop of `simple_strtoul`; at the end of the list it reads behind the packet. -/
def digitsIn (base : Nat) : List UInt8 → Nat → Exec Nat
  | [], _ => .error .outOfBounds
  | character :: rest, result =>
      if isDigitOf base character then
        digitsIn base rest ((result * base + (hexDigit character).getD 0) % 2 ^ 32)
      else
        .ok result

/-- `simple_strtoul` for the base 10. Behind "0x" one more character is looked at. -/
def strtoulIn (cp : List UInt8) : Exec Nat :=
  match cp with
  | [48, 120] => .error .outOfBounds
  | 48 :: 120 :: digit :: rest =>
      if isDigitOf 16 digit then digitsIn 16 (digit :: rest) 0
      else digitsIn 10 (120 :: digit :: rest) 0
  | 48 :: rest => digitsIn 10 rest 0
  | _ => digitsIn 10 cp 0

abbrev AtBlksize (options : List UInt8) : Prop :=
  8 < options.length ∧ options.take 8 = blksizeName

/-- `oackBlkSize` with its reads. Those of `strcmp` end with the eighth character, and
there are more than eight. -/
def oackScan (blkSize : Nat) : List UInt8 → Exec Nat
  | [] => .ok blkSize
  | byte :: rest =>
      if AtBlksize (byte :: rest) then do
        let number ← strtoulIn ((byte :: rest).drop 8)
        oackScan (number % 65536) rest
      else
        oackScan blkSize rest

def blksizeTexts : List UInt8 → List (List UInt8)
  | [] => []
  | byte :: rest =>
      if AtBlksize (byte :: rest) then (byte :: rest).drop 8 :: blksizeTexts rest
      else blksizeTexts rest

def numberStart (text : List UInt8) : Nat × List UInt8 :=
  match text with
  | 48 :: 120 :: digit :: rest => if isDigitOf 16 digit then (16, digit :: rest) else (10, text)
  | _ => (10, text)

def optionNumber (text : List UInt8) : Nat :=
  digitsValue (numberStart text).1 ((numberStart text).2.takeWhile (isDigitOf (numberStart text).1))

def Unfinished (text : List UInt8) : Prop :=
  text = [48, 120] ∨ (numberStart text).2.all (isDigitOf (numberStart text).1) = true

instance (text : List UInt8) : Decidable (Unfinished text) :=
  inferInstanceAs (Decidable (_ ∨ _))

/-- The block size of the last option, in 16 bits, or the one that the client has. -/
def agreedBlkSize (blkSize : Nat) (texts : List (List UInt8)) : Nat :=
  (texts.getLast?.map fun text => optionNumber text % 65536).getD blkSize

/-! ## Numbers -/

section

variable {base : Nat} {text : List UInt8}

theorem digit_step :
    (before % 2 ^ 32 * base + value) % 2 ^ 32 = (before * base + value) % 2 ^ 32 := by
  rw [Nat.add_mod, Nat.mod_mul_mod, ← Nat.add_mod]

theorem digitsIn_eq : digitsIn base text (before % 2 ^ 32) =
      if text.all (isDigitOf base) then .error .outOfBounds
      else .ok (digitsFrom base before (text.takeWhile (isDigitOf base)) % 2 ^ 32) := by
  induction text generalizing before with
  | nil => rfl
  | cons character rest induction =>
    by_cases digit : isDigitOf base character
    · rw [digitsIn, if_pos digit, digit_step, induction, List.takeWhile_cons_of_pos digit,
        List.all_cons, digit, Bool.true_and]
      rfl
    · simp [digitsIn, digit, digitsFrom]

theorem readDigits_eq : (readDigits 32 base text (before % 2 ^ 32)).1 =
      digitsFrom base before (text.takeWhile (isDigitOf base)) % 2 ^ 32 := by
  induction text generalizing before with
  | nil => rfl
  | cons character rest induction =>
    cases found : hexDigit character with
    | none => simp [readDigits, isDigitOf, found, digitsFrom]
    | some value =>
      by_cases small : value < base
      · have digit : isDigitOf base character = true := by simp [isDigitOf, found, small]
        rw [readDigits, found, List.takeWhile_cons_of_pos digit]
        dsimp only
        rw [if_pos small, digit_step, induction, digitsFrom, digitsFrom, List.foldl_cons, found,
          Option.getD_some]
      · simp [readDigits, isDigitOf, found, small, digitsFrom]

theorem isSome_hexDigit : (hexDigit character).isSome = isDigitOf 16 character := by
  revert character
  decide +kernel

theorem strtoul_numberStart (more : text ≠ [48, 120]) :
    strtoulIn text = digitsIn (numberStart text).1 (numberStart text).2 0 ∧
      (simpleStrtoul text 10).1 =
        (readDigits 32 (numberStart text).1 (numberStart text).2 0).1 := by
  rw [simpleStrtoul, strtoulIn.eq_def]
  split
  case h_1 => exact absurd rfl more
  case h_2 digit rest =>
    rw [strtoulOfWidth, numberStart, isSome_hexDigit]
    cases isDigitOf 16 digit <;> exact ⟨rfl, rfl⟩
  case h_3 rest short longer =>
    have start : numberStart (48 :: rest) = (10, 48 :: rest) := by
      rw [numberStart]
      intro digit others equal
      exact longer digit others (List.cons.inj equal).2
    rw [start, strtoulOfWidth]
    · exact ⟨rfl, rfl⟩
    · exact longer
  case h_4 short longer notZero =>
    have start : numberStart text = (10, text) := by
      rw [numberStart]
      exact longer
    rw [start, strtoulOfWidth]
    · exact ⟨rfl, rfl⟩
    · exact longer
    · exact notZero

theorem strtoulIn_eq : strtoulIn text = if Unfinished text then .error .outOfBounds
      else .ok ((simpleStrtoul text 10).1) := by
  by_cases short : text = [48, 120]
  · simp [short, Unfinished, strtoulIn]
  · rw [(strtoul_numberStart short).1, (strtoul_numberStart short).2,
      ← Nat.zero_mod (2 ^ 32), digitsIn_eq, readDigits_eq]
    simp [Unfinished, short]

theorem simpleStrtoul_eq : (simpleStrtoul text 10).1 % 65536 = optionNumber text % 65536 := by
  have number : (simpleStrtoul text 10).1 = optionNumber text % 2 ^ 32 := by
    by_cases short : text = [48, 120]
    · rw [short]
      rfl
    · rw [(strtoul_numberStart short).2, ← Nat.zero_mod (2 ^ 32), readDigits_eq]
      rfl
  rw [number]
  exact Nat.mod_mod_of_dvd _ (by decide)

end

theorem oackScan_eq_ok_iff : oackScan blkSize pkt = .ok size ↔
      (∀ text ∈ blksizeTexts pkt, ¬ Unfinished text) ∧ oackBlkSize blkSize pkt = size := by
  induction pkt generalizing blkSize with
  | nil => simp [oackScan, blksizeTexts, oackBlkSize]
  | cons byte rest induction =>
    rw [oackScan, blksizeTexts, oackBlkSize]
    by_cases option : AtBlksize (byte :: rest)
    · rw [if_pos option, if_pos option, if_pos option, strtoulIn_eq, List.forall_mem_cons]
      generalize (byte :: rest).drop 8 = text
      by_cases unfinished : Unfinished text
      · simp [unfinished]
      · simp [unfinished, induction]
    · rw [if_neg option, if_neg option, if_neg option, induction]

theorem oackBlkSize_eq : oackBlkSize blkSize pkt = agreedBlkSize blkSize (blksizeTexts pkt) := by
  induction pkt generalizing blkSize with
  | nil => rfl
  | cons byte rest induction =>
    rw [blksizeTexts, oackBlkSize]
    by_cases option : AtBlksize (byte :: rest)
    · rw [if_pos option, if_pos option, induction, simpleStrtoul_eq]
      cases later : blksizeTexts rest with
      | nil => rfl
      | cons text texts => simp [agreedBlkSize, List.getLast?_cons]
    · rw [if_neg option, if_neg option, induction]

def Sane (options : Options) (pkt : List UInt8) (src : Nat) (client : Client) : Prop :=
  ∃ size, oackScan client.blkSize pkt = .ok size ∧ 1 ≤ size ∧ size ≤ options.blkSizeOption ∧
    (tftpHandler options ([0, 6] ++ pkt) client.ourPort src client).1.blkSize = size

def Takes (src : Nat) (client : Client) : Prop :=
  client.state = .sendRrq ∨ src = client.remotePort ∨ client.state = .recvWrq ∨
    client.state = .sendWrq

theorem tftpHandler_oack (takes : Takes src client) :
    tftpHandler options ([0, 6] ++ pkt) client.ourPort src client =
      receiveOack options pkt src client := by
  have notDropped : ¬ (client.state ≠ .sendRrq ∧ src ≠ client.remotePort ∧
      client.state ≠ .recvWrq ∧ client.state ≠ .sendWrq) := by
    rw [Takes] at takes
    tauto
  rw [tftpHandler, if_neg (not_not_intro rfl), if_neg notDropped, if_neg (by simp)]
  rfl

theorem sane_iff (options : Options) (pkt : List UInt8) (src : Nat) (client : Client)
    (takes : Takes src client) :
    Sane options pkt src client ↔ (∀ text ∈ blksizeTexts pkt, ¬ Unfinished text) ∧
        1 ≤ agreedBlkSize client.blkSize (blksizeTexts pkt) ∧
        agreedBlkSize client.blkSize (blksizeTexts pkt) ≤ options.blkSizeOption := by
  have size : (tftpHandler options ([0, 6] ++ pkt) client.ourPort src client).1.blkSize =
      agreedBlkSize client.blkSize (blksizeTexts pkt) := by
    rw [tftpHandler_oack takes, ← oackBlkSize_eq]
    rfl
  simp only [Sane, size, oackScan_eq_ok_iff, oackBlkSize_eq]
  constructor
  · rintro ⟨_, ⟨finished, rfl⟩, positive, bounded, _⟩
    exact ⟨finished, positive, bounded⟩
  · rintro ⟨finished, positive, bounded⟩
    exact ⟨_, ⟨finished, rfl⟩, positive, bounded, rfl⟩

def asked : Options := ⟨[], 5000, 1468, 10⟩

def asking : Client :=
  ⟨69, 2000, 0, 10, 0, 0, 0, 0, tftpBlockSize, .sendRrq, 0, fun _ => 0, .goOn⟩

theorem sane_iff_512 : Sane asked (blksizeName ++ [53, 49, 50, 0]) 69 asking :=
  (sane_iff asked _ 69 asking (.inl rfl)).mpr (by decide +kernel)

/-- A block size of 0 is taken. -/
theorem sane_zero :
    (tftpHandler asked ([0, 6] ++ (blksizeName ++ [48, 0])) 2000 69 asking).1.blkSize = 0 ∧
      ¬ Sane asked (blksizeName ++ [48, 0]) 69 asking := by
  have zero : (tftpHandler asked ([0, 6] ++ (blksizeName ++ [48, 0])) 2000 69 asking).1.blkSize =
      0 := by decide +kernel
  refine ⟨zero, ?_⟩
  rintro ⟨size, _, positive, _, equal⟩
  have same : size = 0 := equal.symm.trans zero
  omega

end UBootV210.Net.Tftp
