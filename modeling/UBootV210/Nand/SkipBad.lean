import UBootV210.Foundation.CString

/-! # Reading and writing NAND flash around bad blocks

An embedding of `check_skip_len`, `nand_write_skip_bad` (with flags 0) and
`nand_read_skip_bad` of `nand_util.c` and of the checks of `mtdcore.c` that they
go through. Offsets (`loff_t`) are 64-bit words, lengths (`size_t`) are 32-bit
words. -/

namespace UBootV210.Nand

def EINVAL : Int := 22

def EFBIG : Int := 27

def EROFS : Int := 30

def EUCLEAN : Int := 117

structure Transfer (Chip : Type) where
  ret : Int
  retlen : UInt32
  data : List UInt8
  chip : Chip

/-- A device with the functions of its driver. `Chip` is what the driver keeps
between two calls. -/
structure MtdInfo (Chip : Type) where
  size : UInt64
  erasesize : UInt32
  writesize : UInt32
  writeable : Bool
  eccStrength : UInt32
  bitflipThreshold : UInt32
  blockIsbad : UInt64 → Int
  read : Chip → UInt64 → UInt32 → Transfer Chip
  write : Chip → UInt64 → List UInt8 → Transfer Chip

variable {Chip : Type}

/-! ## `mtdcore.c` -/

def isNegative (offset : UInt64) : Bool := 0x8000000000000000 ≤ offset

def outside (mtd : MtdInfo Chip) (offset : UInt64) (len : UInt32) : Bool :=
  isNegative offset || mtd.size < offset || mtd.size - offset < len.toUInt64

-- The length stays as it is when the arguments are rejected or the length is 0.
def mtdRead (mtd : MtdInfo Chip) (chip : Chip) (offset : UInt64) (len : UInt32) :
    Transfer Chip :=
  if outside mtd offset len then
    ⟨-EINVAL, len, [], chip⟩
  else if len = 0 then
    ⟨0, len, [], chip⟩
  else
    let done := mtd.read chip offset len
    if done.ret < 0 then
      done
    else if mtd.eccStrength = 0 then
      { done with ret := 0 }
    else if done.ret ≥ mtd.bitflipThreshold.toNat then
      { done with ret := -EUCLEAN }
    else
      { done with ret := 0 }

def mtdWrite (mtd : MtdInfo Chip) (chip : Chip) (offset : UInt64) (len : UInt32)
    (buffer : List UInt8) : Transfer Chip :=
  if outside mtd offset len then
    ⟨-EINVAL, 0, [], chip⟩
  else if mtd.writeable = false then
    ⟨-EROFS, 0, [], chip⟩
  else if len = 0 then
    ⟨0, 0, [], chip⟩
  else
    mtd.write chip offset (buffer.take len.toNat)

def mtdBlockIsbad (mtd : MtdInfo Chip) (offset : UInt64) : Int :=
  if isNegative offset || mtd.size < offset then -EINVAL else mtd.blockIsbad offset

/-! ## `nand_util.c` -/

def blockOffset (mtd : MtdInfo Chip) (offset : UInt64) : UInt32 :=
  (offset &&& (mtd.erasesize - 1).toUInt64).toUInt32

def checkSkipLen (mtd : MtdInfo Chip) (length : UInt32) :
    Nat → UInt64 → UInt32 → UInt32 → Int → Exec (Int × UInt32)
  | 0, _, _, _, _ => .error .diverges
  | fuel + 1, offset, lenExclBad, used, ret =>
      if lenExclBad < length then
        if mtd.size ≤ offset then
          .ok (-1, used)
        else
          let blockStart := offset &&& ~~~(mtd.erasesize - 1).toUInt64
          let blockLen := mtd.erasesize - blockOffset mtd offset
          if mtdBlockIsbad mtd blockStart = 0 then
            checkSkipLen mtd length fuel (offset + blockLen.toUInt64) (lenExclBad + blockLen)
              (used + blockLen) ret
          else
            checkSkipLen mtd length fuel (offset + blockLen.toUInt64) lenExclBad (used + blockLen) 1
      else
        .ok (ret, if length < lenExclBad then used - (lenExclBad - length) else used)

/-- The block that the loops ask about. The complement is taken of a 32-bit word. -/
def loopBlock (mtd : MtdInfo Chip) (offset : UInt64) : UInt64 :=
  offset &&& (~~~(mtd.erasesize - 1)).toUInt64

def pieceLength (mtd : MtdInfo Chip) (offset : UInt64) (left : UInt32) : UInt32 :=
  if left < mtd.erasesize - blockOffset mtd offset then
    left
  else
    mtd.erasesize - blockOffset mtd offset

/-- Every turn of the loops moves the offset to the next block or is the last one.
Past the end of the device they ask about the blocks below 4 GiB again, and find
a good one among them or run forever. -/
def loopFuel (mtd : MtdInfo Chip) (offset : UInt64) : Nat :=
  (mtd.size.toNat - offset.toNat) / mtd.erasesize.toNat + 2 ^ 32 / mtd.erasesize.toNat + 3

/-- The loop of `nand_write_skip_bad`: the result, and what is left to write. -/
def writeLoop (mtd : MtdInfo Chip) : Nat → UInt64 → UInt32 → List UInt8 → Chip →
    Exec (Int × UInt32 × Chip)
  | 0, _, _, _, _ => .error .diverges
  | fuel + 1, offset, leftToWrite, buffer, chip =>
      if leftToWrite = 0 then
        .ok (0, 0, chip)
      else if mtdBlockIsbad mtd (loopBlock mtd offset) = 0 then
        let writeSize := pieceLength mtd offset leftToWrite
        let done := mtdWrite mtd chip offset writeSize buffer
        if done.ret ≠ 0 then
          .ok (done.ret, leftToWrite, done.chip)
        else
          writeLoop mtd fuel (offset + writeSize.toUInt64) (leftToWrite - writeSize)
            (buffer.drop writeSize.toNat) done.chip
      else
        writeLoop mtd fuel (offset + (mtd.erasesize - blockOffset mtd offset).toUInt64)
          leftToWrite buffer chip

structure SkipBad (Chip : Type) where
  ret : Int
  length : UInt32
  actual : UInt32
  data : List UInt8
  chip : Chip

def nandWriteSkipBad (mtd : MtdInfo Chip) (chip : Chip) (offset : UInt64) (length : UInt32)
    (lim : Int) (buffer : List UInt8) : Exec (SkipBad Chip) := do
  if offset &&& (mtd.writesize - 1).toUInt64 ≠ 0 then
    return ⟨-EINVAL, 0, 0, [], chip⟩
  let (needSkip, used) ← checkSkipLen mtd length (mtd.size.toNat + 1) offset 0 0 0
  if needSkip < 0 then
    return ⟨-EINVAL, 0, used, [], chip⟩
  if used.toNat > lim then
    return ⟨-EFBIG, 0, used, [], chip⟩
  if needSkip = 0 then
    let done := mtdWrite mtd chip offset length buffer
    return ⟨done.ret, if done.ret = 0 then done.retlen else 0, used, [], done.chip⟩
  let (ret, left, chip) ← writeLoop mtd (loopFuel mtd offset) offset length buffer chip
  return ⟨ret, length - left, used, [], chip⟩

/-- The loop of `nand_read_skip_bad`. The length of a piece is what the driver
stored in it. -/
def readLoop (mtd : MtdInfo Chip) : Nat → UInt64 → UInt32 → List UInt8 → Chip →
    Exec (Int × UInt32 × List UInt8 × Chip)
  | 0, _, _, _, _ => .error .diverges
  | fuel + 1, offset, leftToRead, data, chip =>
      if leftToRead = 0 then
        .ok (0, 0, data, chip)
      else if mtdBlockIsbad mtd (loopBlock mtd offset) = 0 then
        let done := mtdRead mtd chip offset (pieceLength mtd offset leftToRead)
        if done.ret ≠ 0 ∧ done.ret ≠ -EUCLEAN then
          .ok (done.ret, leftToRead, data ++ done.data, done.chip)
        else
          readLoop mtd fuel (offset + done.retlen.toUInt64) (leftToRead - done.retlen)
            (data ++ done.data) done.chip
      else
        readLoop mtd fuel (offset + (mtd.erasesize - blockOffset mtd offset).toUInt64)
          leftToRead data chip

def nandReadSkipBad (mtd : MtdInfo Chip) (chip : Chip) (offset : UInt64) (length : UInt32)
    (lim : Int) : Exec (SkipBad Chip) := do
  if offset &&& (mtd.writesize - 1).toUInt64 ≠ 0 then
    return ⟨-EINVAL, 0, 0, [], chip⟩
  let (needSkip, used) ← checkSkipLen mtd length (mtd.size.toNat + 1) offset 0 0 0
  if needSkip < 0 then
    return ⟨-EINVAL, 0, used, [], chip⟩
  if used.toNat > lim then
    return ⟨-EFBIG, 0, used, [], chip⟩
  if needSkip = 0 then
    let done := mtdRead mtd chip offset length
    if done.ret = 0 ∨ done.ret = -EUCLEAN then
      return ⟨0, done.retlen, used, done.data, done.chip⟩
    return ⟨done.ret, 0, used, done.data, done.chip⟩
  let (ret, left, data, chip) ← readLoop mtd (loopFuel mtd offset) offset length [] chip
  return ⟨ret, length - left, used, data, chip⟩

end UBootV210.Nand
