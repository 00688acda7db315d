import UBootV210.Foundation.Run
import UBootV210.Library.LmbAdd

/-! # The reserved addresses of `lmb.c`

A table whose regions are sorted and apart is read as the set of the addresses
in them. Freeing takes addresses out of the set. -/

namespace UBootV210.Library

open CheckedMemory Intervals

variable {region taken : LmbProperty} {live before after : List LmbProperty}

/-! ## Freeing -/

namespace LmbProperty

def front (region : LmbProperty) (base : UInt32) : LmbProperty := ⟨region.base, base - region.base⟩

def back (region : LmbProperty) (stop : UInt32) : LmbProperty :=
  ⟨stop, region.base + region.size - stop⟩

end LmbProperty

/-- How `lmb_free` ends on a table. What is left of the region is the part below the
interval, the part above it, or both; the upper one of two parts is added again. -/
inductive LmbFreed (rgn : LmbRegion) (live : List LmbProperty) (base size : UInt32) :
    Int → LmbRegion → Prop
  | missed : LmbFreed rgn live base size (-1) rgn
  | kept {before after left : List LmbProperty} {found : LmbProperty} {next : LmbRegion} :
      live = before ++ found :: after → lmbContains base (base + size) found = some () →
      (left = [] ∧ found.base = base ∧ found.base + found.size = base + size ∨
        left = [found.back (base + size)] ∧ found.base = base ∧
          found.base + found.size ≠ base + size ∨
        left = [found.front base] ∧ found.base ≠ base ∧ found.base + found.size = base + size) →
      next.Lists (before ++ (left ++ after)) → LmbFreed rgn live base size 0 next
  | split {before after : List LmbProperty} {found : LmbProperty} {short next : LmbRegion}
      {ret : Int} :
      live = before ++ found :: after →
      (∀ region ∈ before, lmbContains base (base + size) region = none) →
      lmbContains base (base + size) found = some () → found.base ≠ base →
      found.base + found.size ≠ base + size → short.Lists (before ++ found.front base :: after) →
      lmbAddRegion short (base + size) (found.base + found.size - (base + size)) = .ok (ret, next) →
      LmbFreed rgn live base size ret next

theorem LmbRegion.Lists.freed (lists : rgn.Lists live)
    (freed : lmbFreeRegion rgn base size = .ok (ret, next)) :
    LmbFreed rgn live base size ret next := by
  rw [lmbFreeRegion, lists.search, Exec.ok_bind] at freed
  cases found : firstHit (lmbContains base (base + size)) 0 live with
  | none =>
    rw [found] at freed
    cases freed
    exact .missed
  | some hit =>
    obtain ⟨i, region, ⟨⟩⟩ := hit
    rw [found] at freed
    obtain ⟨before, after, rfl, index, contains, passed⟩ := (firstHit_eq_some_iff ..).mp found
    rw [Nat.zero_add] at index
    subst index
    dsimp only at freed
    split at freed
    case isTrue whole =>
      obtain ⟨removed, removes, listed⟩ := lists.remove
      rw [removes] at freed
      cases freed
      exact .kept rfl contains (.inl ⟨rfl, whole⟩) listed
    case isFalse notWhole =>
    split at freed
    case isTrue front =>
      obtain ⟨slots, stored, listed⟩ := lists.store ⟨base + size, region.size - size⟩
      rw [stored] at freed
      cases freed
      have rest : region.size - size = region.base + region.size - (base + size) := by
        rw [front]
        grind
      rw [rest] at listed
      exact .kept rfl contains (.inr (.inl ⟨rfl, front, fun back => notWhole ⟨front, back⟩⟩)) listed
    case isFalse front =>
    split at freed
    case isTrue back =>
      obtain ⟨slots, stored, listed⟩ := lists.store { region with size := region.size - size }
      rw [stored] at freed
      cases freed
      have rest : region.size - size = base - region.base := by
        grind
      rw [rest] at listed
      exact .kept rfl contains (.inr (.inr ⟨rfl, front, back⟩)) listed
    case isFalse back =>
      obtain ⟨slots, stored, listed⟩ := lists.store { region with size := base - region.base }
      rw [stored] at freed
      exact .split rfl passed contains front back listed freed

theorem stop_between (ordered : first.toNat ≤ last.toNat) :
    (⟨first, last - first⟩ : LmbProperty).stop = last.toNat := by
  rw [LmbProperty.stop, UInt32.toNat_sub_of_le _ _ (UInt32.le_iff_toNat_le.mpr ordered)]
  exact Nat.add_sub_of_le ordered

theorem parts_ends (inside : taken.stop < 2 ^ 32) (regionInside : region.stop < 2 ^ 32)
    (contains : lmbContains taken.base (taken.base + taken.size) region = some ()) :
    region.first ≤ taken.first ∧ taken.stop ≤ region.stop ∧
      (region.front taken.base).first = region.first ∧
      (region.front taken.base).stop = taken.first ∧
      (region.back (taken.base + taken.size)).first = taken.stop ∧
      (region.back (taken.base + taken.size)).stop = region.stop := by
  obtain ⟨lower, upper⟩ : region.base ≤ taken.base ∧
      taken.base + taken.size ≤ region.base + region.size := by
    simpa [lmbContains] using contains
  rw [← LmbProperty.toNat_end inside, ← LmbProperty.toNat_end regionInside]
  exact ⟨lower, upper, rfl, stop_between lower, rfl, stop_between upper⟩

theorem Apart.shrink (apart : Apart (before ++ region :: after)) (nonempty : part.first < part.stop)
    (lower : region.first ≤ part.first) (upper : part.stop ≤ region.stop) :
    Apart (before ++ part :: after) := by
  obtain ⟨others, proper, below, above⟩ := apart_cut.mp apart
  exact apart_cut.mpr ⟨others, .of_lt nonempty (upper.trans_lt proper.inside),
    fun left member => (below left member).trans_le lower,
    fun right member => upper.trans_lt (above right member)⟩

/-- Freeing an interval takes its addresses away, unless it returns an error. -/
theorem LmbFreed.frees (freed : LmbFreed rgn live taken.base taken.size ret next)
    (apart : Apart live) (proper : taken.Proper) (succeeds : 0 ≤ ret) :
    ∃ after, next.Lists after ∧ Apart after ∧ ∀ address, Reserved after address ↔
      Reserved live address ∧ ¬ (taken.first ≤ address ∧ address < taken.stop) := by
  have takenLt := proper.lt
  cases freed with
  | missed => exact absurd succeeds (by decide)
  | @kept before after left found _ shape contains rest listed =>
    subst shape
    obtain ⟨others, foundProper, _, _⟩ := apart_cut.mp apart
    obtain ⟨lower, upper, frontFirst, frontStop, backFirst, backStop⟩ :=
      parts_ends proper.inside foundProper.inside contains
    have start : found.base = taken.base ↔ found.first = taken.first := UInt32.toNat_inj.symm
    have stop : found.base + found.size = taken.base + taken.size ↔ found.stop = taken.stop := by
      rw [← UInt32.toNat_inj, LmbProperty.toNat_end proper.inside,
        LmbProperty.toNat_end foundProper.inside]
    simp only [ne_eq, start, stop] at rest
    have covers (same : ∀ address, Reserved left address ↔
        (found.first ≤ address ∧ address < found.stop) ∧
          ¬ (taken.first ≤ address ∧ address < taken.stop)) (address) :=
      apart.separated.covers_parts (by omega) (same address)
    rcases rest with ⟨rfl, atStart, atStop⟩ | ⟨rfl, atStart, atStop⟩ | ⟨rfl, atStart, atStop⟩
    · refine ⟨_, listed, others, covers fun address => ?_⟩
      simp only [covers_nil, false_iff]
      omega
    · refine ⟨_, listed, apart.shrink (by omega) (by omega) (by omega), covers fun address => ?_⟩
      simp only [covers_cons, covers_nil, or_false]
      omega
    · refine ⟨_, listed, apart.shrink (by omega) (by omega) (by omega), covers fun address => ?_⟩
      simp only [covers_cons, covers_nil, or_false]
      omega
  | @split before after found short _ _ shape _ contains front back listed added =>
    subst shape
    obtain ⟨_, foundProper, below, above⟩ := apart_cut.mp apart
    obtain ⟨lower, upper, frontFirst, frontStop, backFirst, backStop⟩ :=
      parts_ends proper.inside foundProper.inside contains
    have start : found.first ≠ taken.first := fun equal => front (UInt32.toNat_inj.mp equal)
    have stop : found.stop ≠ taken.stop := fun equal => back (by
      rw [← UInt32.toNat_inj, LmbProperty.toNat_end proper.inside,
        LmbProperty.toNat_end foundProper.inside, equal])
    have foundInside := foundProper.inside
    have parts (address) : Reserved
        (before ++
          ([found.front taken.base, found.back (taken.base + taken.size)] ++ after)) address ↔
          Reserved (before ++ found :: after) address ∧
            ¬ (taken.first ≤ address ∧ address < taken.stop) := by
      apply apart.separated.covers_parts (by omega)
      simp only [covers_cons, covers_nil, or_false]
      omega
    have again : LmbAdded short _ (found.back (taken.base + taken.size)) ret next :=
      listed.added (by simp) added
    have disjoint : MeetsNone (before ++ found.front taken.base :: after)
        (found.back (taken.base + taken.size)) := by
      intro other member
      rcases List.mem_append.mp member with member | member
      · have gap := below other member
        omega
      · rcases List.mem_cons.mp member with rfl | member
        · omega
        · have gap := above other member
          omega
    obtain ⟨live, listed', apart', same⟩ := again.adds_apart listed (by simp)
      (apart.shrink (by omega) (by omega) (by omega)) (.of_lt (by omega) (by omega))
      (.inr disjoint) succeeds
    refine ⟨live, listed', apart', fun address => ?_⟩
    rw [same, ← parts]
    simp only [covers_append, covers_cons, covers_nil]
    tauto

end UBootV210.Library
