import UBootV210.Environment.HashTableMap
import UBootV210.Environment.HashTableImport

/-! # Reading a variable

`getenv` asks the table. Before the table is filled `getenv_f` scans the image of the
environment, an array of NUL-terminated `name=value` strings that ends with an
empty one. -/

namespace UBootV210.Environment

open CheckedMemory

/-- `getenv` after the import. FIND runs no hook, and it returns on a table with the
invariant. -/
def getenv (htab : HSearchData) (name : CString) : Option CString :=
  match perform permissiveHooks htab (.find name) with
  | .error _ => none
  | .ok (observed, _) => observed.value

/-- `envmatch`: the index of the value if the entry at `i2` has this name. A NUL in both
strings does not end the comparison, which then leaves the name. -/
def envmatch (image : List UInt8) : List UInt8 → Nat → Exec (Option Nat)
  | [], i2 => do
      let byte ← load image i2
      if byte = 0 then
        .error .outOfBounds
      else if byte = equalsSign then
        return some (i2 + 1)
      else
        return none
  | first :: s1, i2 => do
      let byte ← load image i2
      if first = byte then
        if first = equalsSign then return some (i2 + 1) else envmatch image s1 (i2 + 1)
      else
        return none

def entryEnd (envSize : Nat) (image : List UInt8) : Nat → Nat → Exec (Option Nat)
  | 0, _ => .error .diverges
  | fuel + 1, nxt => do
      let byte ← load image nxt
      if byte = 0 then
        return some nxt
      else if envSize ≤ nxt then
        return none
      else
        entryEnd envSize image fuel (nxt + 1)

/-- What `getenv_f` leaves: its return value and the bytes it stored in the buffer. -/
structure GetenvResult where
  ret : Int
  buf : List UInt8
  deriving DecidableEq

def copyOut (image : List UInt8) (len : Nat) : Nat → Nat → List UInt8 → Exec GetenvResult
  | 0, _, buf => .ok ⟨len, if len ≠ 0 then buf.dropLast ++ [0] else buf⟩
  | room + 1, val, buf => do
      let byte ← load image val
      if byte = 0 then
        return ⟨buf.length, buf ++ [0]⟩
      else
        copyOut image len room (val + 1) (buf ++ [byte])

def getenvLoop (envSize : Nat) (image : List UInt8) (name : CString) (len : Nat) :
    Nat → Nat → Exec GetenvResult
  | 0, _ => .error .diverges
  | fuel + 1, i => do
      let byte ← load image i
      if byte = 0 then
        return ⟨-1, []⟩
      match ← entryEnd envSize image (image.length + 1) i with
      | none => return ⟨-1, []⟩
      | some nxt =>
          match ← envmatch image name.bytes i with
          | none => getenvLoop envSize image name len fuel (nxt + 1)
          | some val => copyOut image len len val []

def getenvF (envSize : Nat) (image : List UInt8) (name : CString) (len : Nat) :
    Exec GetenvResult :=
  getenvLoop envSize image name len (image.length + 1) 0

def GetenvResult.value (result : GetenvResult) : Option CString :=
  if result.ret < 0 then none else some (.ofBytes result.buf)

end UBootV210.Environment
