import UBootV210.Foundation.CString

/-! # Numbers in texts

`simple_strtoul` and `simple_strtoull` of lib/vsprintf.c. A text is the list of its bytes
up to the NUL. -/

namespace UBootV210.Library

def hexDigit (character : UInt8) : Option Nat :=
  if 48 ≤ character ∧ character ≤ 57 then some (character.toNat - 48)
  else if 97 ≤ character ∧ character ≤ 102 then some (character.toNat - 97 + 10)
  else if 65 ≤ character ∧ character ≤ 70 then some (character.toNat - 65 + 10)
  else none

/-- The loop over the digits. The result is kept in a number of `width` bits. -/
def readDigits (width base : Nat) : List UInt8 → Nat → Nat × List UInt8
  | [], result => (result, [])
  | character :: rest, result =>
      match hexDigit character with
      | some value =>
          if value < base then readDigits width base rest ((result * base + value) % 2 ^ width)
          else (result, character :: rest)
      | none => (result, character :: rest)

def strtoulOfWidth (width : Nat) (cp : List UInt8) (base : Nat) : Nat × List UInt8 :=
  match cp with
  | 48 :: 120 :: digit :: rest =>
      if (hexDigit digit).isSome then readDigits width 16 (digit :: rest) 0
      else readDigits width (if base = 0 then 8 else base) (120 :: digit :: rest) 0
  | 48 :: rest => readDigits width (if base = 0 then 8 else base) rest 0
  | _ => readDigits width (if base = 0 then 10 else base) cp 0

def simpleStrtoul (cp : List UInt8) (base : Nat) : Nat × List UInt8 := strtoulOfWidth 32 cp base

def simpleStrtoull (cp : List UInt8) (base : Nat) : Nat × List UInt8 := strtoulOfWidth 64 cp base

end UBootV210.Library
