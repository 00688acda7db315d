import UBootV210.Foundation.BitMask
import UBootV210.Library.LmbFree

/-! # Allocations from `lmb.c`

The search of `__lmb_alloc_base` goes down from the end of a memory region. Its
results are aligned, inside the memory region and free, unless the bound for the
highest address is below the size. -/

namespace UBootV210.Library

open CheckedMemory Intervals

section

variable {align : UInt32} {width : Nat} (power : align.toNat = 2 ^ width)
include power

theorem lmbAlignDown_toNat :
    (lmbAlignDown addr align).toNat = addr.toNat / align.toNat * align.toNat :=
  BitMask.toNat_and_high_word power addr

theorem lmbAlignDown_le (addr : UInt32) : (lmbAlignDown addr align).toNat ≤ addr.toNat := by
  rw [lmbAlignDown_toNat power]
  exact Nat.div_mul_le_self ..

theorem dvd_lmbAlignDown : align.toNat ∣ (lmbAlignDown addr align).toNat := by
  rw [lmbAlignDown_toNat power]
  exact Nat.dvd_mul_left ..

theorem lmbAlignUp_bounds (fits : size.toNat + align.toNat ≤ 2 ^ 32) :
    size.toNat ≤ (lmbAlignUp size align).toNat ∧
      (lmbAlignUp size align).toNat < size.toNat + align.toNat := by
  have positive : 0 < align.toNat := power ▸ Nat.two_pow_pos width
  have less : (align - 1).toNat = align.toNat - 1 := by
    rw [BitMask.toNat_sub_one power, power]
  have sum : (size + (align - 1)).toNat = size.toNat + (align.toNat - 1) := by
    rw [UInt32.toNat_add, less]
    exact Nat.mod_eq_of_lt (by omega)
  have rounded : (lmbAlignUp size align).toNat =
      (size.toNat + (align.toNat - 1)) / align.toNat * align.toNat := by
    rw [← sum]
    exact BitMask.toNat_and_high_word power _
  have below := Nat.lt_div_mul_add positive (a := size.toNat + (align.toNat - 1))
  have above := Nat.div_mul_le_self (size.toNat + (align.toNat - 1)) align.toNat
  omega

end

/-! ## Where the search ends -/

theorem lmbOverlapsRegion_some (lists : reserved.Lists live)
    (overlaps : lmbOverlapsRegion reserved base size = .ok (some region)) :
    lmbAddrsOverlap base size region.base region.size = true := by
  rw [lmbOverlapsRegion, lists.search] at overlaps
  cases hit : firstHit (lmbOverlaps base size) 0 live with
  | none =>
    rw [hit] at overlaps
    cases overlaps
  | some found =>
    rw [hit] at overlaps
    cases overlaps
    obtain ⟨_, _, _, _, meets, _⟩ := (firstHit_eq_some_iff ..).mp hit
    rw [lmbOverlaps] at meets
    split at meets
    case isTrue overlap => exact overlap
    case isFalse => cases meets

theorem lmbSearchLoop_bounds (power : align.toNat = 2 ^ width) (shaped : reserved.Shaped)
    (searched : lmbSearchLoop reserved lmbbase size align fuel base = .ok (.returns result after))
    (found : result ≠ 0) (aligned : align.toNat ∣ base.toNat)
    (fits : base.toNat + size.toNat < 2 ^ 32) :
    lmbbase.toNat ≤ result.toNat ∧ result.toNat ≤ base.toNat ∧ align.toNat ∣ result.toNat := by
  induction fuel generalizing base with
  | zero => cases searched
  | succ fuel induction =>
    rw [lmbSearchLoop] at searched
    split at searched
    case isFalse => cases searched
    case isTrue above =>
      rw [Exec.bind_eq_ok_iff] at searched
      obtain ⟨hit, overlaps, searched⟩ := searched
      cases hit with
      | none =>
        rw [Exec.bind_eq_ok_iff] at searched
        obtain ⟨⟨ret, next⟩, added, returned⟩ := searched
        cases returned
        split at found
        · exact absurd rfl found
        case isFalse succeeded =>
          rw [if_neg succeeded]
          exact ⟨UInt32.le_iff_toNat_le.mp above.2, Nat.le_refl _, aligned⟩
      | some region =>
        dsimp only at searched
        split at searched
        case isTrue => cases searched
        case isFalse enough =>
          have met := lmbOverlapsRegion_some shaped.lists overlaps
          rw [lmbAddrsOverlap, Bool.and_eq_true, decide_eq_true_eq, decide_eq_true_eq,
            UInt32.lt_iff_toNat_lt, UInt32.lt_iff_toNat_lt, UInt32.toNat_add base,
            Nat.mod_eq_of_lt fits] at met
          have lower : (region.base - size).toNat = region.base.toNat - size.toNat :=
            UInt32.toNat_sub_of_le _ _ (UInt32.not_lt.mp enough)
          have moved := lmbAlignDown_le power (region.base - size)
          obtain ⟨lowest, highest, aligned'⟩ := induction searched
            (dvd_lmbAlignDown power) (by omega)
          exact ⟨lowest, by omega, aligned'⟩

theorem lmbTop_bounds (power : align.toNat = 2 ^ width) (inside : region.stop < 2 ^ 32)
    (top : lmbTop region size align maxAddr = some base) (bounded : maxAddr = 0 ∨ size ≤ maxAddr) :
    align.toNat ∣ base.toNat ∧ base.toNat + size.toNat ≤ region.stop ∧
      (maxAddr ≠ 0 → base.toNat + size.toNat ≤ maxAddr.toNat) := by
  have toNatEnd := LmbProperty.toNat_end inside
  rw [lmbTop] at top
  split at top
  case isTrue => cases top
  case isFalse enough =>
    have large := UInt32.le_iff_toNat_le.mp (UInt32.not_lt.mp enough)
    have room : size.toNat ≤ region.stop := by
      simp only [LmbProperty.stop]
      omega
    split at top
    case isTrue unbounded =>
      cases top
      have moved := lmbAlignDown_le power (region.base + region.size - size)
      rw [UInt32.toNat_sub_of_le _ _ (by rw [UInt32.le_iff_toNat_le, toNatEnd]; exact room),
        toNatEnd] at moved
      exact ⟨dvd_lmbAlignDown power, by omega, fun limited => absurd unbounded limited⟩
    case isFalse limited =>
      split at top
      case isFalse => cases top
      case isTrue below =>
        cases top
        have limit : size.toNat ≤ maxAddr.toNat := by
          rcases bounded with zero | le
          · exact absurd zero limited
          · exact UInt32.le_iff_toNat_le.mp le
        have least : (min (region.base + region.size) maxAddr).toNat =
            min region.stop maxAddr.toNat := by
          change (if _ ≤ _ then _ else _ : UInt32).toNat = _
          split
          case isTrue le =>
            rw [UInt32.le_iff_toNat_le, toNatEnd] at le
            omega
          case isFalse gt =>
            rw [UInt32.le_iff_toNat_le, toNatEnd] at gt
            omega
        have moved := lmbAlignDown_le power (min (region.base + region.size) maxAddr - size)
        rw [UInt32.toNat_sub_of_le _ _ (by rw [UInt32.le_iff_toNat_le, least]; omega), least]
          at moved
        exact ⟨dvd_lmbAlignDown power, by omega, fun _ => by omega⟩

theorem joined_size {region next : LmbProperty} (inside : region.stop < 2 ^ 32)
    (nextInside : next.stop < 2 ^ 32)
    (adjacent : lmbAddrsAdjacent region.base region.size next.base next.size ≠ 0) :
    (region.size + next.size).toNat = region.size.toNat + next.size.toNat := by
  have touches := (lmbAddrsAdjacent_ne_zero_iff inside nextInside).mp adjacent
  simp only [LmbProperty.stop, LmbProperty.first] at inside nextInside touches
  rw [UInt32.toNat_add]
  exact Nat.mod_eq_of_lt (by omega)

theorem joinNext_covers {region : LmbProperty} {after : List LmbProperty} {address : Nat}
    (inside : region.stop < 2 ^ 32) (afterInside : ∀ next ∈ after, next.stop < 2 ^ 32)
    (holds : region.first ≤ address ∧ address < region.stop) :
    Reserved (joinNext region after).2 address := by
  cases after with
  | nil => exact ⟨region, List.mem_cons_self, holds⟩
  | cons next after =>
    rw [joinNext]
    split
    case isTrue adjacent =>
      refine ⟨_, List.mem_cons_self, holds.1, ?_⟩
      have sum := joined_size inside (afterInside next List.mem_cons_self) adjacent
      have upper := holds.2
      simp only [LmbProperty.stop] at upper ⊢
      omega
    case isFalse => exact ⟨region, List.mem_cons_self, holds⟩

/-- An addition that succeeds puts the addresses of the interval into the table,
in whatever order the regions are and whether or not they overlap. -/
theorem LmbAdded.covers (added : LmbAdded rgn rgn.regions new ret next) (shaped : rgn.Shaped)
    (nonempty : rgn.regions ≠ []) (wrapFree : ∀ region ∈ rgn.regions, region.stop < 2 ^ 32)
    (inside : new.stop < 2 ^ 32) (succeeds : 0 ≤ ret)
    (holds : new.first ≤ address ∧ address < new.stop) : Reserved next.regions address := by
  cases added with
  | dummy _ _ lists =>
    rw [lists.regions_eq]
    exact ⟨_, List.mem_cons_self, holds⟩
  | same member => exact ⟨_, member, holds⟩
  | @grown before after found grown _ shape _ grows lists =>
    rw [shape] at wrapFree
    have foundInside := wrapFree found (by simp)
    have joins := grows.joins inside foundInside
    have proper : found.first ≤ found.stop := Nat.le_add_right ..
    rw [lists.regions_eq, Reserved, covers_append]
    exact .inr (joinNext_covers (by omega) (fun region member => wrapFree region (by simp [member]))
      (by omega))
  | full _ _ => exact absurd succeeds (by decide)
  | inserted _ room stored => exact ⟨_, (shaped.insert room stored).2 nonempty, holds⟩

/-- No region of the tables reaches the end of the address space, and no memory region
does when its end is rounded up. -/
structure Lmb.WrapFree (lmb : Lmb) (align : UInt32) : Prop where
  memory : ∀ region ∈ lmb.memory.regions, region.stop + align.toNat ≤ 2 ^ 32
  reserved : ∀ region ∈ lmb.reserved.regions, region.stop < 2 ^ 32

structure AllocSound (lmb : Lmb) (size align maxAddr result : UInt32) (next : Lmb) : Prop where
  aligned : align.toNat ∣ result.toNat
  inMemory : ∃ region ∈ lmb.memory.regions, region.first ≤ result.toNat ∧
    (⟨result, size⟩ : LmbProperty).stop ≤ region.stop
  below : maxAddr ≠ 0 → (⟨result, size⟩ : LmbProperty).stop ≤ maxAddr.toNat
  free : ∀ address, result.toNat ≤ address → address < (⟨result, size⟩ : LmbProperty).stop →
    ¬ Reserved lmb.reserved.regions address
  reserved : ∀ address, result.toNat ≤ address → address < (⟨result, size⟩ : LmbProperty).stop →
    Reserved next.reserved.regions address

section

variable {lmb next : Lmb} {size align maxAddr result : UInt32} {width : Nat}
  (power : align.toNat = 2 ^ width) (positive : 1 ≤ size) (shaped : lmb.reserved.Shaped)
  (wrapFree : lmb.WrapFree align)
  (allocated : lmbAllocBase lmb size align maxAddr = .ok (result, next)) (found : result ≠ 0)
  (bounded : maxAddr = 0 ∨ size ≤ maxAddr)
include power positive shaped wrapFree allocated found bounded

theorem lmbAllocBase_bounds : align.toNat ∣ result.toNat ∧
      (∃ region ∈ lmb.memory.regions, region.first ≤ result.toNat ∧
        (⟨result, size⟩ : LmbProperty).stop ≤ region.stop) ∧
      (maxAddr ≠ 0 → (⟨result, size⟩ : LmbProperty).stop ≤ maxAddr.toNat) ∧
      (⟨result, size⟩ : LmbProperty).Proper := by
  obtain ⟨region, member, base, after, top, searched, _⟩ :=
    (lmbAllocLoop_found allocated).resolve_left fun failed => found failed.1
  have rounded := wrapFree.memory region member
  have one : 0 < align.toNat := power ▸ Nat.two_pow_pos width
  have inside : region.stop < 2 ^ 32 := by omega
  obtain ⟨aligned, fits, limit⟩ := lmbTop_bounds power inside top bounded
  obtain ⟨lowest, highest, aligned'⟩ :=
    lmbSearchLoop_bounds power shaped searched found aligned (by omega)
  have stop : (⟨result, size⟩ : LmbProperty).stop = result.toNat + size.toNat := rfl
  have nonempty : 0 < size.toNat := UInt32.le_iff_toNat_le.mp positive
  refine ⟨aligned', ⟨region, member, lowest, by omega⟩, fun limited => ?_, nonempty, by omega⟩
  have upper := limit limited
  omega

theorem lmbAllocBase_clear : MeetsNone lmb.reserved.regions ⟨result, size⟩ := by
  obtain ⟨_, _, _, proper⟩ :=
    lmbAllocBase_bounds power positive shaped wrapFree allocated found bounded
  obtain ⟨clear, _⟩ := lmbAllocLoop_returns allocated found
  exact not_overlaps shaped.lists wrapFree.reserved proper clear

theorem reserved_size : size.toNat ≤ (lmbAlignUp size align).toNat ∧
    (⟨result, lmbAlignUp size align⟩ : LmbProperty).stop < 2 ^ 32 := by
  obtain ⟨aligned, ⟨region, member, _, fits⟩, _, proper⟩ :=
    lmbAllocBase_bounds power positive shaped wrapFree allocated found bounded
  have nonzero : 0 < result.toNat :=
    Nat.pos_of_ne_zero fun zero => found (UInt32.toNat_inj.mp zero)
  have lowest := Nat.le_of_dvd nonzero aligned
  have inside := proper.inside
  have rounded := wrapFree.memory region member
  simp only [LmbProperty.stop] at inside fits rounded ⊢
  obtain ⟨lower, upper⟩ := lmbAlignUp_bounds power (by omega : size.toNat + align.toNat ≤ 2 ^ 32)
  exact ⟨lower, by omega⟩

omit bounded

/-- An allocation that returns an address is sound exactly when its size is not
above the bound for the highest address. -/
theorem lmbAllocBase_sound_iff (nonempty : lmb.reserved.regions ≠ []) :
    AllocSound lmb size align maxAddr result next ↔ maxAddr = 0 ∨ size ≤ maxAddr := by
  constructor
  · intro sound
    by_cases unbounded : maxAddr = 0
    · exact .inl unbounded
    · have upper := sound.below unbounded
      simp only [LmbProperty.stop] at upper
      rw [UInt32.le_iff_toNat_le]
      exact .inr (by omega)
  · intro bounded
    obtain ⟨aligned, inMemory, below, proper⟩ :=
      lmbAllocBase_bounds power positive shaped wrapFree allocated found bounded
    have clear := lmbAllocBase_clear power positive shaped wrapFree allocated found bounded
    obtain ⟨large, inside⟩ :=
      reserved_size power positive shaped wrapFree allocated found bounded
    refine ⟨aligned, inMemory, below, ?_, ?_⟩
    · intro address lower upper reserved
      obtain ⟨region, member, first, last⟩ := reserved
      rcases clear region member with before | behind
      · exact absurd last (not_lt.mpr (before.trans lower))
      · omega
    · intro address lower upper
      obtain ⟨_, ret, after, added, succeeds, rfl⟩ := lmbAllocLoop_returns allocated found
      have addition : LmbAdded lmb.reserved _ ⟨result, lmbAlignUp size align⟩ ret after :=
        shaped.lists.added nonempty added
      apply addition.covers shaped nonempty wrapFree.reserved inside succeeds
      refine ⟨lower, ?_⟩
      simp only [LmbProperty.stop] at upper ⊢
      omega

end

end UBootV210.Library
