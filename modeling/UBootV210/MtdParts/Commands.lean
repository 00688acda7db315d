import UBootV210.MtdParts.Parse

/-! # The command `mtdparts add`

An embedding of the part of `do_mtdparts` that puts the arguments of `mtdparts add` together
to the definition of a device. -/

namespace UBootV210.MtdParts

open Library

def mtdIdParse (id : List UInt8) : Option (UInt8 × UInt8 × List UInt8) := do
  let (type, p) ←
    match id with
    | 110 :: 97 :: 110 :: 100 :: p => some (2, p)
    | 110 :: 111 :: 114 :: p => some (1, p)
    | 111 :: 110 :: 101 :: 110 :: 97 :: 110 :: 100 :: p => some ((4 : UInt8), p)
    | _ => none
  if p.head?.any fun first => 48 ≤ first ∧ first ≤ 57 then
    let (num, p) := simpleStrtoul p 0
    some (type, UInt8.ofNat num, p)
  else
    none

def idFind (mtdids : List MtdId) (type num : UInt8) : Option MtdId :=
  mtdids.find? fun id => id.type = type ∧ id.num = num

structure AddArguments where
  device : CString
  size : CString
  name : CString
  /-- `argv[5]`, which is NULL if there are five arguments. -/
  mode : Option CString

def partAddDescMaxlen : Nat := 64

def AddArguments.len (arguments : AddArguments) (id : MtdId) : UInt8 :=
  let len := UInt8.ofNat (id.mtdId.length + 1)
  let len := len + UInt8.ofNat arguments.size.length
  let len := len + UInt8.ofNat (arguments.name.length + 2)
  match arguments.mode with
  | some mode => if mode.length = 2 then len + 2 else len
  | none => len

/-- `%s:%s(%s)%s`. -/
def AddArguments.text (arguments : AddArguments) (id : MtdId) : List UInt8 :=
  id.mtdId.bytes ++ [58] ++ arguments.size.bytes ++ [40] ++ arguments.name.bytes ++ [41] ++
    match arguments.mode with
    | some mode => mode.bytes
    | none => []

def addDescription (mtdids : List MtdId) (arguments : AddArguments) :
    Exec (Option (List UInt8)) :=
  match mtdIdParse arguments.device.bytes with
  | none => .ok none
  | some (type, num, _) =>
      match idFind mtdids type num with
      | none => .ok none
      | some id =>
          if partAddDescMaxlen ≤ (arguments.len id).toNat then .ok none
          else if (arguments.text id).length + 1 ≤ partAddDescMaxlen then
            .ok (some (arguments.text id))
          else .error .outOfBounds

/-! ## What is counted -/

def AddArguments.counted (arguments : AddArguments) (id : MtdId) : Nat :=
  id.mtdId.length + 1 + arguments.size.length + arguments.name.length + 2 +
    match arguments.mode with
    | some mode => if mode.length = 2 then 2 else 0
    | none => 0

/-- The length of a third argument that is not counted. -/
def AddArguments.uncounted (arguments : AddArguments) : Nat :=
  match arguments.mode with
  | some mode => if mode.length = 2 then 0 else mode.length
  | none => 0

theorem AddArguments.toNat_len (arguments : AddArguments) (id : MtdId) :
    (arguments.len id).toNat = arguments.counted id % 256 := by
  rw [len, counted]
  cases arguments.mode with
  | none =>
    simp only [UInt8.toNat_add, UInt8.toNat_ofNat']
    omega
  | some mode =>
    dsimp only
    split
    · simp only [UInt8.toNat_add, UInt8.toNat_ofNat']
      have two : (2 : UInt8).toNat = 2 := rfl
      omega
    · simp only [UInt8.toNat_add, UInt8.toNat_ofNat']
      omega

theorem AddArguments.length_text (arguments : AddArguments) (id : MtdId) :
    (arguments.text id).length = arguments.counted id + arguments.uncounted := by
  have bytes : ∀ string : CString, string.bytes.length = string.length := fun _ => rfl
  rw [text, counted, uncounted]
  simp only [List.length_append, List.length_singleton, bytes]
  cases arguments.mode with
  | none =>
    simp only [List.length_nil]
    omega
  | some mode =>
    dsimp only
    rw [bytes]
    by_cases two : mode.length = 2
    · rw [if_pos two, if_pos two]
      omega
    · rw [if_neg two, if_neg two]
      omega

/-- `mtdparts add` stays in `tmpbuf`, or refuses its arguments, exactly if the length does not
wrap around to a small one and a third argument of another length than two fits as well. -/
theorem addDescription_iff (mtdids : List MtdId) (arguments : AddArguments) :
    (∃ result, addDescription mtdids arguments = .ok result) ↔
      ∀ type num rest id, mtdIdParse arguments.device.bytes = some (type, num, rest) →
        idFind mtdids type num = some id →
        ¬ (256 ≤ arguments.counted id ∧ arguments.counted id % 256 < 64) ∧
          (arguments.counted id < 64 → arguments.counted id + arguments.uncounted < 64) := by
  rw [addDescription]
  cases parsed : mtdIdParse arguments.device.bytes with
  | none =>
    refine iff_of_true ⟨none, rfl⟩ ?_
    intro type num rest id equal
    cases equal
  | some found =>
    obtain ⟨type, num, rest⟩ := found
    dsimp only
    cases known : idFind mtdids type num with
    | none =>
      refine iff_of_true ⟨none, rfl⟩ ?_
      intro type' num' rest' id equal found
      cases equal
      rw [known] at found
      cases found
    | some id =>
      have length := arguments.length_text id
      have counted := arguments.toNat_len id
      have only : (∀ type' num' rest' id', some (type, num, rest) = some (type', num', rest') →
          idFind mtdids type' num' = some id' →
          ¬ (256 ≤ arguments.counted id' ∧ arguments.counted id' % 256 < 64) ∧
            (arguments.counted id' < 64 → arguments.counted id' + arguments.uncounted < 64)) ↔
          ¬ (256 ≤ arguments.counted id ∧ arguments.counted id % 256 < 64) ∧
            (arguments.counted id < 64 → arguments.counted id + arguments.uncounted < 64) := by
        constructor
        · intro every
          exact every type num rest id rfl known
        · intro this type' num' rest' id' equal found
          cases equal
          rw [known] at found
          cases found
          exact this
      have limit : partAddDescMaxlen = 64 := rfl
      rw [only]
      dsimp only
      by_cases refused : partAddDescMaxlen ≤ (arguments.len id).toNat
      · rw [if_pos refused]
        refine iff_of_true ⟨none, rfl⟩ ?_
        omega
      rw [if_neg refused]
      by_cases fits : (arguments.text id).length + 1 ≤ partAddDescMaxlen
      · rw [if_pos fits]
        refine iff_of_true ⟨_, rfl⟩ ?_
        omega
      · rw [if_neg fits]
        refine iff_of_false ?_ ?_
        · rintro ⟨result, returned⟩
          cases returned
        · omega

-- mtdparts add nand0 1m b, with a third argument of 60 characters
theorem addDescription_overflows : ¬ ∃ result,
    addDescription [⟨2, 0, 0x10000000, .ofBytes [97]⟩] ⟨.ofBytes [110, 97, 110, 100, 48],
      .ofBytes [49, 109], .ofBytes [98], some (.ofBytes (List.replicate 60 114))⟩ = .ok result := by
  have fault : addDescription [⟨2, 0, 0x10000000, .ofBytes [97]⟩] ⟨.ofBytes [110, 97, 110, 100, 48],
      .ofBytes [49, 109], .ofBytes [98], some (.ofBytes (List.replicate 60 114))⟩ =
        .error .outOfBounds := by decide +kernel
  rintro ⟨result, returned⟩
  rw [fault] at returned
  cases returned

end UBootV210.MtdParts
