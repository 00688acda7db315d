import UBootV210.Nand.PageRead

/-! # The status of pages that cannot be read

What becomes of a result of the boot ROM on its way through `nand_do_read_ops`,
`mtd_read` and `nand_read_skip_bad`. -/

namespace UBootV210.Nand

open BitMask

namespace NandGeometry

variable (geometry : NandGeometry)

theorem toNat_writesize : geometry.writesize.toNat = 2 ^ geometry.pageShift := by
  have small : 2 ^ geometry.pageShift < 2 ^ 32 :=
    Nat.pow_lt_pow_right (by decide) (geometry.page_le_block.trans_lt geometry.block_lt)
  rw [writesize, UInt32.toNat_ofNat', Nat.mod_eq_of_lt small]

theorem toNat_size : geometry.size.toNat = 2 ^ geometry.chipShift := by
  have small : 2 ^ geometry.chipShift < 2 ^ 64 :=
    Nat.pow_lt_pow_right (by decide) geometry.chip_lt
  rw [size, UInt64.toNat_ofNat', Nat.mod_eq_of_lt small]

theorem toNat_shiftRight :
    (offset >>> UInt64.ofNat geometry.pageShift).toNat =
      offset.toNat / geometry.writesize.toNat := by
  have small : geometry.pageShift < 64 :=
    (geometry.page_le_block.trans_lt geometry.block_lt).trans (by decide)
  rw [UInt64.toNat_shiftRight, UInt64.toNat_ofNat', Nat.mod_eq_of_lt (small.trans (by decide)),
    Nat.mod_eq_of_lt small, Nat.shiftRight_eq_div_pow, toNat_writesize]

def pages (geometry : NandGeometry) : Nat := geometry.size.toNat / geometry.writesize.toNat

variable {geometry} (small : geometry.chipShift ≤ 32)
include small

theorem size_le : geometry.size.toNat ≤ 2 ^ 32 := by
  rw [geometry.toNat_size]
  exact Nat.pow_le_pow_right (by decide) small

end NandGeometry

section

variable (geometry : NandGeometry) (rom : Rom) (bad : Nat → Bool)
  (write : PageCache → UInt64 → List UInt8 → Transfer PageCache)

end

/-! ## The loop over the pages -/

def pageResult (rom : Rom) (page : Nat) : Int :=
  (s5pv210NandReadPageHwecc rom (UInt32.ofNat page)).1

/-- A page that is kept was read without an error. -/
def PageCache.Coherent (geometry : NandGeometry) (rom : Rom) (cache : PageCache) : Prop :=
  cache.pagebuf.toNat < geometry.pages →
    0 ≤ cache.pagebufBitflips ∧ cache.pagebufBitflips = pageResult rom cache.pagebuf.toNat

/-- The loop over the pages up to an address failed, or every page was read. -/
def ReadOps.Reports (geometry : NandGeometry) (rom : Rom) (first stop : Nat) (done : ReadOps) :
    Prop :=
  done.ret < 0 ∧ done.ret ≠ -EUCLEAN ∨
    done.ret = 0 ∧ done.maxBitflips = 0 ∧ done.readlen = 0 ∧ done.cache.Coherent geometry rom ∧
      ∀ page, first ≤ page → page * geometry.writesize.toNat < stop → pageResult rom page = 0

theorem ReadOps.Reports.cons {done : ReadOps} (rest : done.Reports geometry rom (first + 1) stop)
    (zero : pageResult rom first = 0) : done.Reports geometry rom first stop := by
  rcases rest with failed | ⟨ret, bitflips, readlen, coherent, results⟩
  · exact .inl failed
  · refine .inr ⟨ret, bitflips, readlen, coherent, fun page lower upper => ?_⟩
    rcases Nat.eq_or_lt_of_le lower with rfl | above
    · exact zero
    · exact results page above upper

variable {geometry : NandGeometry} {rom : Rom} {bad : Nat → Bool}
  {write : PageCache → UInt64 → List UInt8 → Transfer PageCache}

variable {page : Nat}

namespace NandGeometry

variable (geometry : NandGeometry)

end NandGeometry

section

variable (small : geometry.chipShift ≤ 32)
include small

end

/-! ## A page that is passed over -/

end UBootV210.Nand
