import UBootV210.Foundation.OpenAddressing
import UBootV210.Environment.HashTableProbe

/-! # The invariant of the environment table

The slots of `struct hsearch_data` are read as the cells of an open addressing
table whose probe sequences are those of `hsearch_r`. -/

namespace UBootV210.Environment

open OpenAddressing

def Slot.cell (slot : Slot) : Cell CString CString :=
  if slot.used = 0 then
    .free
  else if slot.used = -1 then
    .deleted
  else
    match slot.entry.key, slot.entry.data with
    | some key, some value => .live key value
    | _, _ => .deleted

def HSearchData.cells (htab : HSearchData) : Cells CString CString :=
  fun index => (htab.table index).cell

def probing (size : UInt32) (valid : ValidSize size) : Probing CString where
  size := size.toNat
  indices := Finset.Icc 1 size.toNat
  probe key count := (probeAt size key count).toNat
  probe_mem key count := Finset.mem_Icc.mpr (valid.probeAt_bounds key count)
  probe_injOn key _ _ leftLt rightLt equal := valid.probeAt_injOn key leftLt rightLt equal
  exists_probe key _ member :=
    valid.exists_probeAt key (Finset.mem_Icc.mp member).1 (Finset.mem_Icc.mp member).2

structure Slot.Holds (size : UInt32) (slot : Slot) (key value : CString) : Prop where
  used : slot.used = (hashValue size key).toNat
  key : slot.entry.key = some key
  data : slot.entry.data = some value

def Slot.Sound (size : UInt32) (slot : Slot) : Prop :=
  slot.used = 0 ∨ slot.used = -1 ∨ ∃ key value, slot.Holds size key value

namespace Slot

variable {size : UInt32} {slot : Slot} {key value : CString}

theorem cell_eq_free_iff : slot.cell = .free ↔ slot.used = 0 := by
  unfold cell
  split
  · simp_all
  · rename_i nonzero
    simp only [nonzero, iff_false]
    split
    · simp
    · split <;> simp

theorem Holds.used_pos (holds : slot.Holds size key value) (large : 3 ≤ size.toNat) :
    0 < slot.used := by
  have hash := hashValue_bounds (Nat.le_of_succ_le large) key
  rw [holds.used]
  omega

theorem Holds.cell (holds : slot.Holds size key value) (large : 3 ≤ size.toNat) :
    slot.cell = .live key value := by
  have positive := holds.used_pos large
  have notFree : slot.used ≠ 0 := by omega
  have notDeleted : slot.used ≠ -1 := by omega
  simp [Slot.cell, notFree, notDeleted, holds.key, holds.data]

theorem Sound.holds (sound : slot.Sound size) (live : slot.cell = .live key value) :
    slot.Holds size key value := by
  rcases sound with free | deleted | ⟨stored, content, holds⟩
  · simp [Slot.cell, free] at live
  · simp [Slot.cell, deleted] at live
  · have notFree : slot.used ≠ 0 := by
      intro free
      simp [Slot.cell, free] at live
    have notDeleted : slot.used ≠ -1 := by
      intro deleted
      simp [Slot.cell, deleted] at live
    simp only [Slot.cell, notFree, notDeleted, holds.key, holds.data, if_false,
      Cell.live.injEq] at live
    obtain ⟨rfl, rfl⟩ := live
    exact holds

theorem Sound.isLive_iff (sound : slot.Sound size) (large : 3 ≤ size.toNat) :
    slot.cell.isLive = true ↔ 0 < slot.used := by
  rcases sound with free | deleted | ⟨stored, content, holds⟩
  · simp [Slot.cell, free]
  · simp [Slot.cell, deleted]
  · simp [holds.cell large, holds.used_pos large]

end Slot

structure HSearchData.Searchable (htab : HSearchData) : Prop where
  validSize : ValidSize htab.size
  sound : ∀ index, 1 ≤ index → index ≤ htab.size.toNat → (htab.table index).Sound htab.size
  valid : Valid (probing htab.size validSize) htab.cells

/-- The invariant of a table that `hcreate_r` made and whose updates went
well. -/
structure HSearchData.Invariant (htab : HSearchData) : Prop extends htab.Searchable where
  filled : htab.filled.toNat = (liveIndices (probing htab.size validSize) htab.cells).card

namespace HSearchData

def Stores (htab : HSearchData) (key value : CString) : Prop :=
  ∃ index, 1 ≤ index ∧ index ≤ htab.size.toNat ∧ htab.cells index = .live key value

def Absent (htab : HSearchData) (key : CString) : Prop :=
  ∀ value, ¬ htab.Stores key value

theorem stores_iff (htab : HSearchData) (valid : ValidSize htab.size) (key value : CString) :
    htab.Stores key value ↔
      OpenAddressing.Stores (probing htab.size valid) htab.cells key value := by
  simp [Stores, OpenAddressing.Stores, probing, and_assoc]

theorem absent_iff (htab : HSearchData) (valid : ValidSize htab.size) (key : CString) :
    htab.Absent key ↔ OpenAddressing.Absent (probing htab.size valid) htab.cells key := by
  rw [OpenAddressing.absent_iff]
  exact forall_congr' fun value => not_congr (htab.stores_iff valid key value)

namespace Searchable

variable {htab : HSearchData} {key value : CString}

theorem holds (searchable : htab.Searchable) (lower : 1 ≤ index)
    (upper : index ≤ htab.size.toNat) (live : htab.cells index = .live key value) :
    (htab.table index).Holds htab.size key value :=
  (searchable.sound index lower upper).holds live

theorem passes (searchable : htab.Searchable)
    (notFree : htab.cells (probeAt htab.size key count).toNat ≠ .free)
    (notKey : ∀ value, htab.cells (probeAt htab.size key count).toNat ≠ .live key value) :
    Passes htab key count := by
  have bounds := searchable.validSize.probeAt_bounds key count
  constructor
  · intro unused
    exact notFree (Slot.cell_eq_free_iff.mpr unused)
  · intro usedEq
    have hash := hashValue_bounds (Nat.le_of_succ_le searchable.validSize.large) key
    rcases searchable.sound _ bounds.1 bounds.2 with free | deleted | ⟨stored, content, held⟩
    · change (htab.slotAt key count).used = 0 at free
      omega
    · change (htab.slotAt key count).used = -1 at deleted
      omega
    · refine ⟨stored, held.key, ?_⟩
      rintro rfl
      exact notKey content (held.cell searchable.validSize.large)

theorem passes_before (searchable : htab.Searchable) (inside : count < htab.size.toNat)
    (live : htab.cells (probeAt htab.size key count).toNat = .live key value) :
    ∀ earlier < count, Passes htab key earlier := by
  intro earlier earlierLt
  apply searchable.passes
  · exact searchable.valid.reachable inside live earlier earlierLt
  · intro other otherHolds
    have sameIndex := searchable.valid.unique
      ((probing htab.size searchable.validSize).probe_mem key earlier)
      ((probing htab.size searchable.validSize).probe_mem key count) otherHolds live
    have sameCount := searchable.validSize.probeAt_injOn key (by omega) inside sameIndex
    omega

section

variable (hooks : Hooks) (allocation : Allocation) (item : Item) (action : Action) (flag : Int)

theorem probe_stored (searchable : htab.Searchable) (lower : 1 ≤ index)
    (upper : index ≤ htab.size.toNat) (live : htab.cells index = .live item.key value) :
    ∃ idx : UInt32, idx.toNat = index ∧
      probe hooks allocation item action htab flag (hashValue htab.size item.key) =
        .ok (.returned (hit hooks allocation item action htab flag idx)) := by
  obtain ⟨count, inside, reached⟩ :=
    searchable.validSize.exists_probeAt item.key lower upper
  refine ⟨probeAt htab.size item.key count, reached, ?_⟩
  have held := searchable.holds lower upper live
  rw [← reached] at live held
  exact probe_hit hooks allocation item action flag searchable.validSize inside
    (searchable.passes_before inside live) held.used held.key

theorem probe_absent (searchable : htab.Searchable) (absent : htab.Absent item.key) :
    ∃ idx : UInt32, probe hooks allocation item action htab flag (hashValue htab.size item.key) =
        .ok (.stopped idx) ∧
      ((∃ count < htab.size.toNat, probeAt htab.size item.key count = idx ∧
          htab.cells idx.toNat = .free ∧
          ∀ earlier < count, htab.cells (probeAt htab.size item.key earlier).toNat ≠ .free) ∨
        (idx = hashValue htab.size item.key ∧
          ∀ index, 1 ≤ index → index ≤ htab.size.toNat → htab.cells index ≠ .free)) := by
  classical
  have notKey : ∀ count value,
      htab.cells (probeAt htab.size item.key count).toNat ≠ .live item.key value := by
    intro count value live
    have bounds := searchable.validSize.probeAt_bounds item.key count
    exact absent value ⟨_, bounds.1, bounds.2, live⟩
  by_cases anyFree : ∃ count, count < htab.size.toNat ∧
      htab.cells (probeAt htab.size item.key count).toNat = .free
  · have found := Nat.find_spec anyFree
    have before : ∀ earlier < Nat.find anyFree,
        htab.cells (probeAt htab.size item.key earlier).toNat ≠ .free := by
      intro earlier earlierLt isFree
      exact Nat.find_min anyFree earlierLt ⟨by omega, isFree⟩
    refine ⟨_, probe_free hooks allocation item action flag searchable.validSize found.1 ?_
      (Slot.cell_eq_free_iff.mp found.2), .inl ⟨_, found.1, rfl, found.2, before⟩⟩
    intro earlier earlierLt
    exact searchable.passes (before earlier earlierLt) (notKey earlier)
  · have noneFree : ∀ index, 1 ≤ index → index ≤ htab.size.toNat → htab.cells index ≠ .free := by
      intro index lower upper isFree
      obtain ⟨count, inside, rfl⟩ :=
        searchable.validSize.exists_probeAt item.key lower upper
      exact anyFree ⟨count, inside, isFree⟩
    refine ⟨_, probe_exhausted hooks allocation item action flag searchable.validSize ?_,
      .inr ⟨rfl, noneFree⟩⟩
    intro count inside
    exact searchable.passes (fun isFree => anyFree ⟨count, inside, isFree⟩) (notKey count)

end

end Searchable

end HSearchData

end UBootV210.Environment
