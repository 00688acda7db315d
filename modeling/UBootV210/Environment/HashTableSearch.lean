import UBootV210.Environment.HashTableUpdate

/-! # What `hsearch_r` and `hdelete_r` do on a table with the invariant -/

namespace UBootV210.Environment

open OpenAddressing

theorem createdSlot_holds (size : UInt32) (key value : CString) (slot : Slot) :
    (createdSlot .succeeds key value (hashValue size key) slot).Holds size key value := by
  constructor <;> rfl

namespace HSearchData

/-- A new entry for the key finds a slot without a live entry: some slot was
never used, or the first slot of the key is a tombstone. -/
def HasRoom (htab : HSearchData) (key : CString) : Prop :=
  (∃ index, 1 ≤ index ∧ index ≤ htab.size.toNat ∧ (htab.table index).used = 0) ∨
    (htab.table (hashValue htab.size key).toNat).used = -1

structure StopsAt (htab : HSearchData) (key : CString) (idx : UInt32) : Prop where
  located : (∃ count < htab.size.toNat, probeAt htab.size key count = idx ∧
        htab.cells idx.toNat = .free ∧
        ∀ earlier < count, htab.cells (probeAt htab.size key earlier).toNat ≠ .free) ∨
      (idx = hashValue htab.size key ∧
        ∀ index, 1 ≤ index → index ≤ htab.size.toNat → htab.cells index ≠ .free)

namespace Searchable

variable {htab : HSearchData} {key value : CString}

section

variable (searchable : htab.Searchable)
include searchable

theorem firstDeleted_eq : (firstDeleted htab (hashValue htab.size key) ≠ 0 ↔
      (htab.table (hashValue htab.size key).toNat).used = -1) := by
  have hash := hashValue_bounds (Nat.le_of_succ_le searchable.validSize.large) key
  unfold firstDeleted
  split
  · rename_i tombstone
    simp only [tombstone, iff_true]
    intro zero
    rw [zero] at hash
    exact absurd hash.1 (by decide)
  · rename_i other
    simp [other]

theorem createTarget_of_tombstone
    (tombstone : (htab.table (hashValue htab.size key).toNat).used = -1) :
    createTarget htab idx (hashValue htab.size key) = hashValue htab.size key := by
  unfold createTarget
  rw [if_pos (searchable.firstDeleted_eq.mpr tombstone)]
  simp [firstDeleted, tombstone]

theorem createTarget_of_not_tombstone
    (other : (htab.table (hashValue htab.size key).toNat).used ≠ -1) :
    createTarget htab idx (hashValue htab.size key) = idx := by
  exact if_neg fun found => other (searchable.firstDeleted_eq.mp found)

/-- With room, the create path writes a slot of the key's probe sequence that
is not live and is not preceded by a never used slot. -/
theorem createTarget_of_room (room : htab.HasRoom key) (stops : htab.StopsAt key idx) :
    ∃ count < htab.size.toNat,
      probeAt htab.size key count = createTarget htab idx (hashValue htab.size key) ∧
      (htab.cells (createTarget htab idx (hashValue htab.size key)).toNat).isLive = false ∧
      ∀ earlier < count, htab.cells (probeAt htab.size key earlier).toNat ≠ .free := by
  have large := searchable.validSize.large
  by_cases tombstone : (htab.table (hashValue htab.size key).toNat).used = -1
  · rw [searchable.createTarget_of_tombstone tombstone]
    refine ⟨0, by omega, rfl, ?_, fun earlier earlierLt => absurd earlierLt (by omega)⟩
    simp [HSearchData.cells, Slot.cell, tombstone]
  · rw [searchable.createTarget_of_not_tombstone tombstone]
    rcases stops.located with ⟨count, inside, reached, isFree, passed⟩ | ⟨_, noneFree⟩
    · exact ⟨count, inside, reached, by rw [isFree]; rfl, passed⟩
    · rcases room with ⟨index, lower, upper, unused⟩ | atFirst
      · exact absurd (Slot.cell_eq_free_iff.mpr unused) (noneFree index lower upper)
      · exact absurd atFirst tombstone

/-- Without room, the create path writes the first slot of the key, and that
slot holds another live entry. -/
theorem createTarget_of_no_room (noRoom : ¬ htab.HasRoom key) (stops : htab.StopsAt key idx) :
    createTarget htab idx (hashValue htab.size key) = hashValue htab.size key ∧ ∃ other stored,
        htab.cells (hashValue htab.size key).toNat = .live other stored := by
  have hash := hashValue_bounds (Nat.le_of_succ_le searchable.validSize.large) key
  rw [HasRoom, not_or] at noRoom
  obtain ⟨noneFree, notTombstone⟩ := noRoom
  rw [searchable.createTarget_of_not_tombstone notTombstone]
  constructor
  · rcases stops.located with ⟨count, inside, reached, isFree, _⟩ | ⟨atFirst, _⟩
    · have bounds := searchable.validSize.probeAt_bounds key count
      rw [reached] at bounds
      exact absurd ⟨_, bounds.1, bounds.2, Slot.cell_eq_free_iff.mp isFree⟩ noneFree
    · exact atFirst
  · rcases searchable.sound _ hash.1 hash.2.le with unused | tombstone | ⟨other, stored, holds⟩
    · exact absurd ⟨_, hash.1, hash.2.le, unused⟩ noneFree
    · exact absurd tombstone notTombstone
    · exact ⟨other, stored, holds.cell searchable.validSize.large⟩

end

section

variable (hooks : Hooks) (allocation : Allocation) (flag : Int)

section

variable (searchable : htab.Searchable)
include searchable

theorem find_stored (data : Option CString) (stored : htab.Stores key value) :
    ∃ idx : UInt32, 1 ≤ idx.toNat ∧ idx.toNat ≤ htab.size.toNat ∧
      htab.cells idx.toNat = .live key value ∧
      hsearchR hooks allocation ⟨key, data⟩ .find htab flag =
        .ok (.success idx.toNat idx, htab) := by
  obtain ⟨index, lower, upper, live⟩ := stored
  obtain ⟨idx, rfl, probed⟩ := searchable.probe_stored hooks allocation ⟨key, data⟩ .find flag
    lower upper live
  refine ⟨idx, lower, upper, live, ?_⟩
  simp only [hsearchR, probed, hit]

theorem find_absent (data : Option CString) (absent : htab.Absent key) :
    hsearchR hooks allocation ⟨key, data⟩ .find htab flag = .ok (.failure .ESRCH, htab) := by
  obtain ⟨idx, probed, _⟩ := searchable.probe_absent hooks allocation ⟨key, data⟩ .find flag absent
  simp only [hsearchR, probed]

theorem enter_stored (value : CString) (stored : htab.Stores key old) :
    ∃ idx : UInt32, 1 ≤ idx.toNat ∧ idx.toNat ≤ htab.size.toNat ∧
      htab.cells idx.toNat = .live key old ∧
      hsearchR hooks allocation ⟨key, some value⟩ .enter htab flag =
        .ok (overwriteEntry hooks allocation key value htab flag idx) := by
  obtain ⟨index, lower, upper, live⟩ := stored
  obtain ⟨idx, rfl, probed⟩ := searchable.probe_stored hooks allocation ⟨key, some value⟩
    .enter flag lower upper live
  refine ⟨idx, lower, upper, live, ?_⟩
  simp only [hsearchR, probed, hit]

theorem enter_absent (value : CString) (absent : htab.Absent key) :
    ∃ idx : UInt32, htab.StopsAt key idx ∧
      hsearchR hooks allocation ⟨key, some value⟩ .enter htab flag =
        .ok (createEntry hooks allocation key value htab flag (hashValue htab.size key) idx) := by
  obtain ⟨idx, probed, located⟩ := searchable.probe_absent hooks allocation ⟨key, some value⟩
    .enter flag absent
  refine ⟨idx, ⟨located⟩, ?_⟩
  simp only [hsearchR, probed]

theorem hdeleteR_cases (stored : htab.Stores key value) :
    ∃ idx : UInt32, 1 ≤ idx.toNat ∧ idx.toNat ≤ htab.size.toNat ∧
      htab.cells idx.toNat = .live key value ∧
      let accepted := !hooks.rejects (htab.table idx.toNat).entry none .delete flag &&
        (hooks.runCallback htab (htab.table idx.toNat).entry key none .delete flag).isSome
      ((accepted = false ∧ hdeleteR hooks key htab flag = .ok (0, htab)) ∨
        accepted = true ∧ ∃ called, hooks.runCallback htab (htab.table idx.toNat).entry key none
            .delete flag = some called ∧
          hdeleteR hooks key htab flag = .ok (1, hdelete called idx)) := by
  obtain ⟨idx, lower, upper, live, searched⟩ :=
    searchable.find_stored hooks .succeeds 0 none stored
  have nonzero : idx.toNat ≠ 0 := by omega
  refine ⟨idx, lower, upper, live, ?_⟩
  simp only [hdeleteR, searched, HSearchReturn.success, nonzero, if_false, UInt32.ofNat_toNat]
  apply (hooks.decision htab (htab.table idx.toNat).entry key none .delete flag
    (fun _ => Except.ok (0, htab)) fun called => .ok (1, hdelete called idx)).imp_left
  rintro ⟨refused, _, outcome⟩
  exact ⟨refused, outcome⟩

end

end

end Searchable

namespace Invariant

variable {htab : HSearchData} {key value : CString}

theorem createdTable (invariant : htab.Invariant) (absent : htab.Absent key)
    (notFull : htab.filled ≠ htab.size) (room : htab.HasRoom key) {idx : UInt32}
    (stops : htab.StopsAt key idx) :
    (createdTable .succeeds key value htab idx (hashValue htab.size key)).Invariant ∧
      ∀ other stored, (Environment.createdTable .succeeds key value htab idx
            (hashValue htab.size key)).Stores other stored ↔
          (key = other ∧ value = stored) ∨ htab.Stores other stored := by
  obtain ⟨count, inside, reached, notLive, passed⟩ :=
    invariant.createTarget_of_room room stops
  exact invariant.create absent notFull inside reached notLive passed (createdSlot_holds ..)

end Invariant

end HSearchData

end UBootV210.Environment
