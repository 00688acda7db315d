import UBootV210.Foundation.CheckedMemory

/-! # Logical memory blocks

An embedding of `lmb.c` with 32-bit addresses. The slots of a table beyond its
count keep what was stored in them last. -/

namespace UBootV210.Library

open CheckedMemory

def MAX_LMB_REGIONS : Nat := 8

structure LmbProperty where
  base : UInt32
  size : UInt32
  deriving DecidableEq, Repr

/-- `struct lmb_region`; its `size` field is not read anywhere. -/
structure LmbRegion where
  cnt : UInt32
  region : List LmbProperty
  deriving DecidableEq

structure Lmb where
  memory : LmbRegion
  reserved : LmbRegion
  deriving DecidableEq

def lmbAddrsOverlap (base1 size1 base2 size2 : UInt32) : Bool :=
  base1 < base2 + size2 && base2 < base1 + size1

def lmbAddrsAdjacent (base1 size1 base2 size2 : UInt32) : Int :=
  if base2 = base1 + size1 then
    1
  else if base1 = base2 + size2 then
    -1
  else
    0

def lmbRegionsAdjacent (region : List LmbProperty) (r1 r2 : Nat) : Exec Int := do
  let first ← load region r1
  let second ← load region r2
  return lmbAddrsAdjacent first.base first.size second.base second.size

def lmbRemoveLoop : Nat → Nat → List LmbProperty → Exec (List LmbProperty)
  | 0, _, region => .ok region
  | count + 1, i, region => do
      let next ← load region (i + 1)
      let region ← store region i next
      lmbRemoveLoop count (i + 1) region

-- The bound `cnt - 1` of the loop is unsigned.
def lmbRemoveRegion (rgn : LmbRegion) (r : Nat) : Exec LmbRegion := do
  let region ← lmbRemoveLoop ((rgn.cnt - 1).toNat - r) r rgn.region
  return ⟨rgn.cnt - 1, region⟩

def lmbCoalesceRegions (rgn : LmbRegion) (r1 r2 : Nat) : Exec LmbRegion := do
  let first ← load rgn.region r1
  let second ← load rgn.region r2
  let region ← store rgn.region r1 { first with size := first.size + second.size }
  lmbRemoveRegion { rgn with region := region } r2

/-- Why the first loop of `lmb_add_region` stops at a region: it is the new one,
or it lies directly above or below the new one. -/
inductive LmbTouch
  | same
  | above
  | below

def lmbTouch (base size : UInt32) (rgn : LmbProperty) : Option LmbTouch :=
  if rgn.base = base ∧ rgn.size = size then
    some .same
  else
    let adjacent := lmbAddrsAdjacent base size rgn.base rgn.size
    if adjacent > 0 then
      some .above
    else if adjacent < 0 then
      some .below
    else
      none

/-- The test for the next region after the first loop: the number of regions
that were coalesced by it. -/
def lmbJoinNext (rgn : LmbRegion) (i : Nat) : Exec (Int × LmbRegion) := do
  if i < (rgn.cnt - 1).toNat then
    let adjacent ← lmbRegionsAdjacent rgn.region i (i + 1)
    if adjacent ≠ 0 then
      let rgn ← lmbCoalesceRegions rgn i (i + 1)
      return (1, rgn)
  return (0, rgn)

-- The argument counts the regions from the front that are still to be compared.
def lmbShiftLoop (base size : UInt32) : Nat → List LmbProperty → Exec (List LmbProperty)
  | 0, region => .ok region
  | i + 1, region => do
      let rgn ← load region i
      if base < rgn.base then
        let region ← store region (i + 1) rgn
        lmbShiftLoop base size i region
      else
        store region (i + 1) ⟨base, size⟩

def lmbInsert (rgn : LmbRegion) (base size : UInt32) : Exec LmbRegion := do
  let region ← lmbShiftLoop base size rgn.cnt.toNat rgn.region
  let first ← load region 0
  let region ← if base < first.base then store region 0 ⟨base, size⟩ else .ok region
  return ⟨rgn.cnt + 1, region⟩

-- Without a region to join, the first loop ends with `i = cnt`.
def lmbAddRegion (rgn : LmbRegion) (base size : UInt32) : Exec (Int × LmbRegion) := do
  let first ← load rgn.region 0
  if rgn.cnt = 1 ∧ first.size = 0 then
    let region ← store rgn.region 0 ⟨base, size⟩
    return (0, { rgn with region := region })
  match ← search (lmbTouch base size) rgn.cnt.toNat 0 rgn.region with
  | some (_, _, .same) => return (0, rgn)
  | some (i, found, .above) =>
      let region ← store rgn.region i ⟨found.base - size, found.size + size⟩
      let (coalesced, rgn) ← lmbJoinNext { rgn with region := region } i
      return (1 + coalesced, rgn)
  | some (i, found, .below) =>
      let region ← store rgn.region i { found with size := found.size + size }
      let (coalesced, rgn) ← lmbJoinNext { rgn with region := region } i
      return (1 + coalesced, rgn)
  | none =>
      let (coalesced, rgn) ← lmbJoinNext rgn rgn.cnt.toNat
      if coalesced ≠ 0 then
        return (coalesced, rgn)
      if rgn.cnt.toNat ≥ MAX_LMB_REGIONS then
        return (-1, rgn)
      let rgn ← lmbInsert rgn base size
      return (0, rgn)

/-- `lmb_init` leaves the slots behind the dummy region as they are. -/
def lmbInit (lmb : Lmb) : Lmb where
  memory := ⟨1, lmb.memory.region.set 0 ⟨0, 0⟩⟩
  reserved := ⟨1, lmb.reserved.region.set 0 ⟨0, 0⟩⟩

def lmbAdd (lmb : Lmb) (base size : UInt32) : Exec (Int × Lmb) := do
  let (ret, memory) ← lmbAddRegion lmb.memory base size
  return (ret, { lmb with memory := memory })

def lmbReserve (lmb : Lmb) (base size : UInt32) : Exec (Int × Lmb) := do
  let (ret, reserved) ← lmbAddRegion lmb.reserved base size
  return (ret, { lmb with reserved := reserved })

def lmbContains (base stop : UInt32) (rgn : LmbProperty) : Option Unit :=
  if rgn.base ≤ base ∧ stop ≤ rgn.base + rgn.size then some () else none

def lmbFreeRegion (rgn : LmbRegion) (base size : UInt32) : Exec (Int × LmbRegion) := do
  let stop := base + size
  match ← search (lmbContains base stop) rgn.cnt.toNat 0 rgn.region with
  | none => return (-1, rgn)
  | some (i, found, _) =>
      let rgnend := found.base + found.size
      if found.base = base ∧ rgnend = stop then
        let rgn ← lmbRemoveRegion rgn i
        return (0, rgn)
      if found.base = base then
        let region ← store rgn.region i ⟨stop, found.size - size⟩
        return (0, { rgn with region := region })
      if rgnend = stop then
        let region ← store rgn.region i { found with size := found.size - size }
        return (0, { rgn with region := region })
      let region ← store rgn.region i { found with size := base - found.base }
      lmbAddRegion { rgn with region := region } stop (rgnend - stop)

def lmbFree (lmb : Lmb) (base size : UInt32) : Exec (Int × Lmb) := do
  let (ret, reserved) ← lmbFreeRegion lmb.reserved base size
  return (ret, { lmb with reserved := reserved })

def lmbOverlaps (base size : UInt32) (rgn : LmbProperty) : Option Unit :=
  if lmbAddrsOverlap base size rgn.base rgn.size then some () else none

/-- `lmb_overlaps_region`, with the region in place of its index. -/
def lmbOverlapsRegion (rgn : LmbRegion) (base size : UInt32) : Exec (Option LmbProperty) :=
  (search (lmbOverlaps base size) rgn.cnt.toNat 0 rgn.region).map fun found =>
    found.map fun hit => hit.2.1

def lmbAlignDown (addr size : UInt32) : UInt32 := addr &&& ~~~(size - 1)

def lmbAlignUp (addr size : UInt32) : UInt32 := (addr + (size - 1)) &&& ~~~(size - 1)

inductive LmbSearch
  | returns (base : UInt32) (reserved : LmbRegion)
  | continues

def lmbSearchLoop (reserved : LmbRegion) (lmbbase size align : UInt32) : Nat → UInt32 →
    Exec LmbSearch
  | 0, _ => .error .diverges
  | fuel + 1, base =>
      if base ≠ 0 ∧ lmbbase ≤ base then do
        match ← lmbOverlapsRegion reserved base size with
        | none =>
            let (ret, after) ← lmbAddRegion reserved base (lmbAlignUp size align)
            return .returns (if ret < 0 then 0 else base) after
        | some rgn =>
            if rgn.base < size then
              return .continues
            lmbSearchLoop reserved lmbbase size align fuel (lmbAlignDown (rgn.base - size) align)
      else
        .ok .continues

/-- The highest base that the search in a memory region starts from. -/
def lmbTop (rgn : LmbProperty) (size align maxAddr : UInt32) : Option UInt32 :=
  if rgn.size < size then
    none
  else if maxAddr = 0 then
    some (lmbAlignDown (rgn.base + rgn.size - size) align)
  else if rgn.base < maxAddr then
    some (lmbAlignDown (min (rgn.base + rgn.size) maxAddr - size) align)
  else
    none

-- The argument counts the memory regions from the front that are still to be searched.
def lmbAllocLoop (lmb : Lmb) (size align maxAddr : UInt32) : Nat → Exec (UInt32 × Lmb)
  | 0 => .ok (0, lmb)
  | i + 1 => do
      let rgn ← load lmb.memory.region i
      match lmbTop rgn size align maxAddr with
      | none => lmbAllocLoop lmb size align maxAddr i
      | some base =>
          match ← lmbSearchLoop lmb.reserved rgn.base size align (base.toNat + 1) base with
          | .returns base reserved => return (base, { lmb with reserved := reserved })
          | .continues => lmbAllocLoop lmb size align maxAddr i

def lmbAllocBase (lmb : Lmb) (size align maxAddr : UInt32) : Exec (UInt32 × Lmb) :=
  lmbAllocLoop lmb size align maxAddr lmb.memory.cnt.toNat

def lmbHolds (addr : UInt32) (rgn : LmbProperty) : Option Unit :=
  if rgn.base ≤ addr ∧ addr ≤ rgn.base + rgn.size - 1 then some () else none

def lmbIsReserved (lmb : Lmb) (addr : UInt32) : Exec Bool :=
  (search (lmbHolds addr) lmb.reserved.cnt.toNat 0 lmb.reserved.region).map Option.isSome

end UBootV210.Library
