import UBootV210.MtdParts.Memsize

/-! # Partition definitions

An embedding of `part_parse`, `part_validate`, `part_sort_add` and `device_parse` of
common/cmd_mtdparts.c. A text is the list of its bytes up to the NUL; memory can always be
allocated. -/

namespace UBootV210.MtdParts

open Library

structure MtdId where
  type : UInt8
  num : UInt8
  size : UInt64
  mtdId : CString
  deriving DecidableEq

structure PartInfo where
  name : CString
  autoName : Bool
  size : UInt64
  offset : UInt64
  maskFlags : UInt32
  deriving DecidableEq

structure MtdDevice where
  id : MtdId
  numParts : UInt16
  parts : List PartInfo
  deriving DecidableEq

structure EraseRegion where
  offset : UInt64
  erasesize : UInt32
  numblocks : UInt32

structure MtdInfo where
  erasesize : UInt32
  eraseregions : List EraseRegion

/-- `get_mtd_info`: the flash chips that there are. -/
abbrev Chips := UInt8 → UInt8 → Option MtdInfo

def sizeRemaining : UInt64 := 0xffffffffffffffff
def offsetNotSpecified : UInt64 := 0xffffffffffffffff
def minPartSize : UInt64 := 4096
def mtdWriteableCmd : UInt32 := 1

/-! ## `part_parse` -/

structure PartDef where
  size : UInt64
  offset : UInt64
  name : Option CString
  maskFlags : UInt32
  deriving DecidableEq

def parseSize (p : List UInt8) : Option (UInt64 × List UInt8) :=
  match p with
  | 45 :: p => some (sizeRemaining, p)
  | p =>
      let (size, p) := memsizeParse p
      if size < minPartSize then none else some (size, p)

def parseOffset (p : List UInt8) : UInt64 × List UInt8 :=
  match p with
  | 64 :: p => memsizeParse p
  | p => (offsetNotSpecified, p)

def parseName (p : List UInt8) : Option (Option CString × List UInt8) :=
  match p with
  | 40 :: p =>
      let name := CString.ofBytes (p.takeWhile (· ≠ 41))
      match p.dropWhile (· ≠ 41) with
      | [] => none
      | _ :: p => if name.bytes = [] then none else some (some name, p)
  | p => some (none, p)

def parseFlags (p : List UInt8) : UInt32 × List UInt8 :=
  match p with
  | 114 :: 111 :: p => (mtdWriteableCmd, p)
  | p => (0, p)

def parseEnd (size : UInt64) (p : List UInt8) : Option (List UInt8) :=
  match p with
  | [] => some []
  | 44 :: p => if size = sizeRemaining then none else some p
  | 59 :: p => some (59 :: p)
  | _ => none

/-- `part_parse` up to the allocation. -/
def partDef (p : List UInt8) : Option (PartDef × List UInt8) := do
  let (size, p) ← parseSize p
  let (offset, p) := parseOffset p
  let (name, p) ← parseName p
  let (maskFlags, p) := parseFlags p
  let ret ← parseEnd size p
  return (⟨size, offset, name, maskFlags⟩, ret)

/-- `0x%08llx@0x%08llx`. -/
def autoName (size offset : UInt64) : List UInt8 :=
  [48, 120] ++ hexadecimal8 size ++ [64, 48, 120] ++ hexadecimal8 offset

/-- `part_parse`. A name that is generated is written to 22 bytes. -/
def partParse (p : List UInt8) : Exec (Option (PartInfo × List UInt8)) :=
  match partDef p with
  | none => .ok none
  | some (⟨size, offset, some name, maskFlags⟩, ret) =>
      .ok (some (⟨name, false, size, offset, maskFlags⟩, ret))
  | some (⟨size, offset, none, maskFlags⟩, ret) =>
      if (autoName size offset).length + 1 ≤ 22 then
        .ok (some (⟨.ofBytes (autoName size offset), true, size, offset, maskFlags⟩, ret))
      else
        .error .outOfBounds

/-! ## `part_validate` -/

/-- The block starts of a region; the address has 32 bits. -/
def EraseRegion.starts (region : EraseRegion) : List UInt32 :=
  (List.range region.numblocks.toNat).map fun block =>
    region.offset.toUInt32 + UInt32.ofNat block * region.erasesize

def lastStart (regions : List EraseRegion) : Option UInt32 :=
  regions.getLast?.map fun region => region.offset.toUInt32 + region.numblocks * region.erasesize

def isBlockStart (regions : List EraseRegion) (address : UInt64) : Bool :=
  regions.any fun region => region.starts.any fun start => address = start.toUInt64

def partValidateEraseblock (chips : Chips) (id : MtdId) (part : PartInfo) : Bool :=
  match chips id.type id.num with
  | none => false
  | some mtd =>
      if mtd.eraseregions = [] then
        part.offset % mtd.erasesize.toUInt64 = 0 ∧ part.size % mtd.erasesize.toUInt64 = 0
      else
        isBlockStart mtd.eraseregions part.offset ∧
          (isBlockStart mtd.eraseregions (part.offset + part.size) ∨
            lastStart mtd.eraseregions = some (part.offset + part.size).toUInt32 ∧
              (part.offset + part.size).toUInt32.toUInt64 = part.offset + part.size)

def fillSize (id : MtdId) (part : PartInfo) : PartInfo :=
  if part.size = sizeRemaining then { part with size := id.size - part.offset } else part

/-- `part_validate`, with the size that it fills in. -/
def partValidate (chips : Chips) (id : MtdId) (part : PartInfo) : Option PartInfo :=
  let part := fillSize id part
  if part.offset > id.size then none
  else if part.offset + part.size ≤ part.offset then none
  else if part.offset + part.size > id.size then none
  else if partValidateEraseblock chips id part then some part
  else none

/-! ## `part_sort_add` -/

def sortAdd (new : PartInfo) : List PartInfo → Option (List PartInfo)
  | [] => some [new]
  | pi :: parts =>
      if new.offset = pi.offset ∧ pi.offset = 0 then none
      else if new.offset ≤ pi.offset then some (new :: pi :: parts)
      else (sortAdd new parts).map (pi :: ·)

def partSortAdd (dev : MtdDevice) (part : PartInfo) : Option MtdDevice :=
  (sortAdd part dev.parts).map fun parts =>
    { dev with parts := parts, numParts := dev.numParts + 1 }

/-! ## `device_parse` -/

def idFindByMtdId (mtdids : List MtdId) (mtdId : List UInt8) : Option MtdId :=
  mtdids.find? fun id => id.mtdId.bytes = mtdId

def deviceFind (devices : List MtdDevice) (type num : UInt8) : Option MtdDevice :=
  devices.find? fun dev => dev.id.type = type ∧ dev.id.num = num

def fillOffset (offset : UInt64) (part : PartInfo) : PartInfo :=
  if part.offset = offsetNotSpecified then { part with offset := offset } else part

def nextPart (chips : Chips) (id : MtdId) (offset : UInt64) (p : List UInt8) :
    Exec (Option (PartInfo × List UInt8)) := do
  match ← partParse p with
  | none => return none
  | some (part, p) =>
      match partValidate chips id (fillOffset offset part) with
      | none => return none
      | some part => return some (part, p)

def parseParts (chips : Chips) (id : MtdId) :
    Nat → UInt64 → List UInt8 → Exec (Option (List PartInfo × List UInt8))
  | 0, _, _ => .error .diverges
  | fuel + 1, offset, p =>
      if p.head? = none ∨ p.head? = some 59 then
        .ok (some ([], p))
      else do
        match ← nextPart chips id offset p with
        | none => return none
        | some (part, p) =>
            match ← parseParts chips id fuel (part.offset + part.size) p with
            | none => return none
            | some (parts, p) => return some (part :: parts, p)

/-- The offset of the first partition: behind the last one of a device that exists. -/
def firstOffset (devices : List MtdDevice) (id : MtdId) : Exec UInt64 :=
  match deviceFind devices id.type id.num with
  | none => .ok 0
  | some dev =>
      match dev.parts.getLast? with
      | none => .error .outOfBounds
      | some part => .ok (part.offset + part.size)

def afterDevice (p : List UInt8) : List UInt8 :=
  match p with
  | 59 :: p => p
  | p => p

def addParts (dev : MtdDevice) : List PartInfo → Option MtdDevice
  | [] => some dev
  | part :: parts => do
      let dev ← partSortAdd dev part
      addParts dev parts

def deviceParse (chips : Chips) (mtdids : List MtdId) (devices : List MtdDevice)
    (mtdDev : List UInt8) : Exec (Option (MtdDevice × List UInt8)) :=
  match mtdDev.dropWhile (· ≠ 58) with
  | [] => .ok none
  | _ :: p =>
      match idFindByMtdId mtdids (mtdDev.takeWhile (· ≠ 58)) with
      | none => .ok none
      | some id => do
          let offset ← firstOffset devices id
          match ← parseParts chips id (p.length + 1) offset p with
          | none => return none
          | some (parts, p) =>
              -- The partitions are counted in 16 bits.
              if parts.length % 65536 = 0 then return none
              match addParts ⟨id, 0, []⟩ parts with
              | none => return none
              | some dev => return some (dev, afterDevice p)

end UBootV210.MtdParts
