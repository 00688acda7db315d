import UBootV210.Nand.SkipBadWalk

/-! # Reading pages through the boot ROM

An embedding of `nand_do_read_ops` of `nand_base.c` as `nand_read` calls it (with
no spare area), over `s5pv210_nand_read_page_hwecc`, and of the device that the
S5PV210 driver sets up. -/

namespace UBootV210.Nand

/-- `NF8_ReadPage_Adv`: what it returns for a block and a page of the block, and
the page that it stores. -/
abbrev Rom := UInt32 → UInt32 → Int × List UInt8

def s5pv210NandReadPageHwecc (rom : Rom) (page : UInt32) : Int × List UInt8 :=
  rom (page / 64) (page % 64)

/-- The page that the chip structure keeps; `pagebuf` is -1 when there is none. -/
structure PageCache where
  pagebuf : UInt32
  pagebufBitflips : Int
  databuf : List UInt8

structure ReadOps where
  ret : Int
  maxBitflips : Int
  readlen : UInt32
  data : List UInt8
  cache : PageCache

/-- The sizes of a device with one chip. The smallest pages have 256 bytes. -/
structure NandGeometry where
  pageShift : Nat
  blockShift : Nat
  chipShift : Nat
  page_ge : 8 ≤ pageShift
  page_le_block : pageShift ≤ blockShift
  block_le_chip : blockShift ≤ chipShift
  block_lt : blockShift < 32
  chip_lt : chipShift < 64

namespace NandGeometry

def writesize (geometry : NandGeometry) : UInt32 := UInt32.ofNat (2 ^ geometry.pageShift)

def erasesize (geometry : NandGeometry) : UInt32 := UInt32.ofNat (2 ^ geometry.blockShift)

def size (geometry : NandGeometry) : UInt64 := UInt64.ofNat (2 ^ geometry.chipShift)

end NandGeometry

def ReadOps.transfer (done : ReadOps) (len : UInt32) : Transfer PageCache where
  ret := if done.ret ≠ 0 then done.ret else done.maxBitflips
  retlen := len - done.readlen
  data := done.data
  chip := done.cache

end UBootV210.Nand
