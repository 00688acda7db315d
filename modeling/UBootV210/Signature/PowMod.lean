import UBootV210.Foundation.WordArray

/-! # The public operation of RSA

Embedding of the arithmetic of `lib/rsa/rsa-verify.c`. A number is an array of
32-bit words with its lowest word first; the signature itself is an array of
bytes with its highest byte first. -/

namespace UBootV210.Signature

open CheckedMemory

structure RsaPublicKey where
  len : UInt32
  n0inv : UInt32
  modulus : List UInt32
  rr : List UInt32
  deriving DecidableEq

def rsaMaxKeyBits : Nat := 2048

def EINVAL : Int := 22

def subtractLoop (key : RsaPublicKey) : Nat → Nat → Int64 → List UInt32 → Exec (List UInt32)
  | 0, _, _, num => .ok num
  | count + 1, i, acc, num => do
      let word ← load num i
      let modulusWord ← load key.modulus i
      let acc := acc + (word.toUInt64 - modulusWord.toUInt64).toInt64
      let num ← store num i acc.toUInt64.toUInt32
      subtractLoop key count (i + 1) (acc >>> 32) num

def subtractModulus (key : RsaPublicKey) (num : List UInt32) : Exec (List UInt32) :=
  subtractLoop key key.len.toNat 0 0 num

/-- The index is unsigned, so that the condition `i >= 0` of the loop never ends it. -/
def greaterEqualLoop (key : RsaPublicKey) (num : List UInt32) : Nat → UInt32 → Exec Bool
  | 0, _ => .error .diverges
  | fuel + 1, i => do
      let word ← load num i.toNat
      let modulusWord ← load key.modulus i.toNat
      if word < modulusWord then
        return false
      if word > modulusWord then
        return true
      greaterEqualLoop key num fuel (i - 1)

def greaterEqualModulus (key : RsaPublicKey) (num : List UInt32) : Exec Bool :=
  greaterEqualLoop key num (key.len.toNat + 1) (key.len - 1)

structure MulAdd where
  accA : UInt64
  accB : UInt64
  result : List UInt32

def mulAddLoop (key : RsaPublicKey) (a d0 : UInt32) (b : List UInt32) :
    Nat → Nat → MulAdd → Exec MulAdd
  | 0, _, state => .ok state
  | count + 1, i, state => do
      let word ← load b i
      let resultWord ← load state.result i
      let accA := (state.accA >>> 32) + a.toUInt64 * word.toUInt64 + resultWord.toUInt64
      let modulusWord ← load key.modulus i
      let accB :=
        (state.accB >>> 32) + d0.toUInt64 * modulusWord.toUInt64 + accA.toUInt32.toUInt64
      let result ← store state.result (i - 1) accB.toUInt32
      mulAddLoop key a d0 b count (i + 1) ⟨accA, accB, result⟩

def montgomeryMulAddStep (key : RsaPublicKey) (result : List UInt32) (a : UInt32)
    (b : List UInt32) : Exec (List UInt32) := do
  let word ← load b 0
  let resultWord ← load result 0
  let accA := a.toUInt64 * word.toUInt64 + resultWord.toUInt64
  let d0 := accA.toUInt32 * key.n0inv
  let modulusWord ← load key.modulus 0
  let accB := d0.toUInt64 * modulusWord.toUInt64 + accA.toUInt32.toUInt64
  let state ← mulAddLoop key a d0 b (key.len.toNat - 1) 1 ⟨accA, accB, result⟩
  let accA := (state.accA >>> 32) + (state.accB >>> 32)
  let result ← store state.result (max 1 key.len.toNat - 1) accA.toUInt32
  if accA >>> 32 ≠ 0 then
    subtractModulus key result
  else
    return result

def clearLoop : Nat → Nat → List UInt32 → Exec (List UInt32)
  | 0, _, result => .ok result
  | count + 1, i, result => do
      let result ← store result i 0
      clearLoop count (i + 1) result

def multiplyLoop (key : RsaPublicKey) (a b : List UInt32) :
    Nat → Nat → List UInt32 → Exec (List UInt32)
  | 0, _, result => .ok result
  | count + 1, i, result => do
      let word ← load a i
      let result ← montgomeryMulAddStep key result word b
      multiplyLoop key a b count (i + 1) result

def montgomeryMul (key : RsaPublicKey) (result a b : List UInt32) : Exec (List UInt32) := do
  let result ← clearLoop key.len.toNat 0 result
  multiplyLoop key a b key.len.toNat 0 result

def getUnalignedBe32 (bytes : List UInt8) (ptr : Nat) : Exec UInt32 := do
  let byte0 ← load bytes (4 * ptr)
  let byte1 ← load bytes (4 * ptr + 1)
  let byte2 ← load bytes (4 * ptr + 2)
  let byte3 ← load bytes (4 * ptr + 3)
  return byte0.toUInt32 <<< 24 ||| byte1.toUInt32 <<< 16 ||| byte2.toUInt32 <<< 8 ||| byte3.toUInt32

def wordBytes (word : UInt32) : List UInt8 :=
  [(word >>> 24).toUInt8, (word >>> 16).toUInt8, (word >>> 8).toUInt8, word.toUInt8]

def putUnalignedBe32 (word : UInt32) (bytes : List UInt8) (ptr : Nat) : Exec (List UInt8) :=
  storeAll bytes (4 * ptr) (wordBytes word)

def fromBigEndian (inout : List UInt8) : Nat → Nat → Nat → List UInt32 → Exec (List UInt32)
  | 0, _, _, val => .ok val
  | count + 1, i, ptr, val => do
      let word ← getUnalignedBe32 inout ptr
      let val ← store val i word
      fromBigEndian inout count (i + 1) (ptr - 1) val

/-- The loop goes down from the word above which `count` words were converted. -/
def toBigEndian (result : List UInt32) : Nat → Nat → List UInt8 → Exec (List UInt8)
  | 0, _, inout => .ok inout
  | count + 1, ptr, inout => do
      let word ← load result count
      let inout ← putUnalignedBe32 word inout ptr
      toBigEndian result count (ptr + 1) inout

/-- The turns of the loop over `i < 16`, each of which squares twice. -/
def squareLoop (key : RsaPublicKey) :
    Nat → List UInt32 → List UInt32 → Exec (List UInt32 × List UInt32)
  | 0, acc, tmp => .ok (acc, tmp)
  | turns + 1, acc, tmp => do
      let tmp ← montgomeryMul key tmp acc acc
      let acc ← montgomeryMul key acc tmp tmp
      squareLoop key turns acc tmp

/-- An array on the stack, with what was there before. -/
def stackWords (stack : Nat → UInt32) (start count : Nat) : List UInt32 :=
  (List.range' start count).map stack

def powMod (stack : Nat → UInt32) (key : RsaPublicKey) (inout : List UInt8) :
    Exec (Int × List UInt8) := do
  let len := key.len.toNat
  if rsaMaxKeyBits / 32 < len then
    return (-EINVAL, inout)
  let val ← fromBigEndian inout len 0 (len - 1) (stackWords stack 0 len)
  let acc ← montgomeryMul key (stackWords stack len len) val key.rr
  let (acc, tmp) ← squareLoop key 8 acc (stackWords stack (2 * len) len)
  let result ← montgomeryMul key tmp acc val
  let greaterEqual ← greaterEqualModulus key result
  let result ← if greaterEqual then subtractModulus key result else .ok result
  let inout ← toBigEndian result len 0 inout
  return (0, inout)

end UBootV210.Signature
