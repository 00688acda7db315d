import UBootV210.Environment.HashTableInvariant

/-! # What one update of the table does

The outcomes of the overwrite path, the create path and a deletion, with the
attributes of the entries left open: callbacks may rewrite them at any time. -/

namespace UBootV210.Environment

open OpenAddressing

/-! ## Tables that differ in attributes only -/

structure Slot.Same (left right : Slot) : Prop where
  used : left.used = right.used
  key : left.entry.key = right.entry.key
  data : left.entry.data = right.entry.data

structure HSearchData.Same (left right : HSearchData) : Prop where
  size : left.size = right.size
  filled : left.filled = right.filled
  slots : ∀ index, (left.table index).Same (right.table index)

theorem Slot.Same.cell {left right : Slot} (same : left.Same right) :
    left.cell = right.cell := by
  simp [Slot.cell, same.used, same.key, same.data]

theorem Slot.Same.sound {left right : Slot} (same : left.Same right)
    (sound : right.Sound size) : left.Sound size := by
  rcases sound with free | deleted | ⟨key, value, holds⟩
  · exact .inl (same.used.trans free)
  · exact .inr (.inl (same.used.trans deleted))
  · exact .inr (.inr ⟨key, value, same.used.trans holds.used, same.key.trans holds.key,
      same.data.trans holds.data⟩)

namespace HSearchData.Same

variable {left middle right : HSearchData}

theorem refl (htab : HSearchData) : htab.Same htab where
  size := rfl
  filled := rfl
  slots _ := ⟨rfl, rfl, rfl⟩

theorem trans (first : left.Same middle) (second : middle.Same right) : left.Same right where
  size := first.size.trans second.size
  filled := first.filled.trans second.filled
  slots index :=
    ⟨(first.slots index).used.trans (second.slots index).used,
      (first.slots index).key.trans (second.slots index).key,
      (first.slots index).data.trans (second.slots index).data⟩

theorem cells (same : left.Same right) : left.cells = right.cells := by
  funext index
  exact (same.slots index).cell

theorem searchable (same : left.Same right) (holds : right.Searchable) : left.Searchable := by
  obtain ⟨leftTable, leftSize, leftFilled⟩ := left
  have cellsEq := same.cells
  obtain ⟨sizeEq, filledEq, slots⟩ := same
  subst sizeEq filledEq
  refine ⟨holds.validSize, ?_, ?_⟩
  · intro index lower upper
    exact (slots index).sound (holds.sound index lower upper)
  · rw [cellsEq]
    exact holds.valid

theorem invariant (same : left.Same right) (holds : right.Invariant) : left.Invariant := by
  have searchable := same.searchable holds.toSearchable
  have cellsEq := same.cells
  obtain ⟨leftTable, leftSize, leftFilled⟩ := left
  obtain ⟨sizeEq, filledEq, slots⟩ := same
  subst sizeEq filledEq
  refine ⟨searchable, ?_⟩
  rw [cellsEq]
  exact holds.filled

theorem stores_iff (same : left.Same right) (key value : CString) :
    left.Stores key value ↔ right.Stores key value := by
  unfold HSearchData.Stores
  rw [same.size, same.cells]

theorem setSlot (same : left.Same right) (idx : UInt32) (slotSame : leftSlot.Same rightSlot) :
    (left.setSlot idx leftSlot).Same (right.setSlot idx rightSlot) where
  size := same.size
  filled := same.filled
  slots index := by
    by_cases at_ : index = idx.toNat
    · subst at_
      simpa [HSearchData.setSlot] using slotSame
    · simpa [HSearchData.setSlot, at_] using same.slots index

end HSearchData.Same

theorem HSearchData.setAttributes_same (htab : HSearchData)
    (attributes : Entry → Attributes) : (htab.setAttributes attributes).Same htab where
  size := rfl
  filled := rfl
  slots index := by
    rw [HSearchData.setAttributes]
    dsimp only
    split
    · exact ⟨rfl, rfl, rfl⟩
    · exact ⟨rfl, rfl, rfl⟩

theorem Hooks.runCallback_same {hooks : Hooks} {htab next : HSearchData} {entry : Entry}
    {name : CString}
    (accepted : hooks.runCallback htab entry name value op flag = some next) :
    next.Same htab := by
  unfold Hooks.runCallback at accepted
  split at accepted
  · cases accepted
    exact .refl htab
  · rw [Option.map_eq_some_iff] at accepted
    obtain ⟨attributes, _, rfl⟩ := accepted
    exact htab.setAttributes_same attributes

theorem initAttributes_same (hooks : Hooks) (htab : HSearchData) (idx : UInt32) :
    (initAttributes hooks htab idx).Same htab where
  size := rfl
  filled := rfl
  slots index := by
    by_cases at_ : index = idx.toNat
    · subst at_
      simp only [initAttributes, HSearchData.setSlot, Function.update_self]
      exact ⟨rfl, rfl, rfl⟩
    · simp only [initAttributes, HSearchData.setSlot, ne_eq, at_, not_false_eq_true,
        Function.update_of_ne]
      exact ⟨rfl, rfl, rfl⟩

/-! ## Outcomes of the two paths of an ENTER -/

theorem Hooks.decision (hooks : Hooks) (htab : HSearchData) (entry : Entry) (name : CString)
    (value : Option CString) (op : EnvOp) (flag : Int) (refused : Errno → Result)
    (granted : HSearchData → Result) :
    let accepted := !hooks.rejects entry value op flag &&
      (hooks.runCallback htab entry name value op flag).isSome
    let result := bif hooks.rejects entry value op flag then refused .EPERM
      else match hooks.runCallback htab entry name value op flag with
        | none => refused .EINVAL
        | some next => granted next
    (accepted = false ∧ ∃ errno, result = refused errno) ∨ accepted = true ∧
      ∃ next, hooks.runCallback htab entry name value op flag = some next ∧
        result = granted next := by
  cases hooks.rejects entry value op flag with
  | true => exact .inl ⟨rfl, .EPERM, rfl⟩
  | false =>
    cases hooks.runCallback htab entry name value op flag with
    | none => exact .inl ⟨rfl, .EINVAL, rfl⟩
    | some next => exact .inr ⟨rfl, next, rfl, rfl⟩

namespace HSearchData

def withFilled (htab : HSearchData) (filled : UInt32) : HSearchData :=
  { htab with filled := filled }

def withData (htab : HSearchData) (idx : UInt32) (data : Option CString) : HSearchData :=
  htab.setSlot idx
    { htab.table idx.toNat with
      entry := { (htab.table idx.toNat).entry with data := data } }

end HSearchData

section

variable (hooks : Hooks) (allocation : Allocation) (key value : CString)
  (htab : HSearchData) (flag : Int) (idx : UInt32)

def overwriteAccepted : Bool :=
  !hooks.rejects (htab.table idx.toNat).entry (some value) .overwrite flag &&
    (hooks.runCallback htab (htab.table idx.toNat).entry key (some value) .overwrite flag).isSome

theorem overwriteEntry_cases : (overwriteAccepted hooks key value htab flag idx = false ∧ ∃ errno,
        overwriteEntry hooks allocation key value htab flag idx = (.failure errno, htab)) ∨
      overwriteAccepted hooks key value htab flag idx = true ∧ ∃ called,
        hooks.runCallback htab (htab.table idx.toNat).entry key (some value) .overwrite flag =
          some called ∧
        overwriteEntry hooks allocation key value htab flag idx =
          (bif allocation.data then .success idx.toNat idx else .failure .ENOMEM,
            called.withData idx (strdup allocation.data value)) := by
  have outcome := hooks.decision htab (htab.table idx.toNat).entry key (some value) .overwrite flag
    (fun errno => (HSearchReturn.failure errno, htab)) fun called =>
      (bif allocation.data then .success idx.toNat idx else .failure .ENOMEM,
        called.withData idx (strdup allocation.data value))
  unfold overwriteEntry
  cases available : allocation.data <;> rw [available] at outcome <;> exact outcome

variable (hval : UInt32)

def createTarget : UInt32 :=
  if firstDeleted htab hval ≠ 0 then firstDeleted htab hval else idx

def createdTable : HSearchData :=
  (htab.setSlot (createTarget htab idx hval) (createdSlot allocation key value hval
      (htab.table (createTarget htab idx hval).toNat))).withFilled (htab.filled + 1)

def createAccepted : Bool :=
  let offered := initAttributes hooks (createdTable .succeeds key value htab idx hval)
    (createTarget htab idx hval)
  let entry := (offered.table (createTarget htab idx hval).toNat).entry
  !hooks.rejects entry (some value) .create flag &&
    (hooks.runCallback offered entry key (some value) .create flag).isSome

/-- The new entry as the create path offers it to the permission check. -/
def offeredTable : HSearchData :=
  initAttributes hooks (createdTable .succeeds key value htab idx hval) (createTarget htab idx hval)

theorem createEntry_full (full : htab.filled = htab.size) :
    createEntry hooks allocation key value htab flag hval idx = (.failure .ENOMEM, htab) := by
  unfold createEntry
  rw [if_pos full]

theorem createEntry_cases (notFull : htab.filled ≠ htab.size) :
    ((allocation.key && allocation.data) = false ∧
        createEntry hooks allocation key value htab flag hval idx = (.failure .ENOMEM,
          (createdTable allocation key value htab idx hval).withFilled htab.filled)) ∨
      allocation = .succeeds ∧
        ((createAccepted hooks key value htab flag idx hval = false ∧ ∃ errno,
            createEntry hooks .succeeds key value htab flag hval idx = (.failure errno,
              hdelete (offeredTable hooks key value htab idx hval) (createTarget htab idx hval))) ∨
          createAccepted hooks key value htab flag idx hval = true ∧ ∃ next,
            hooks.runCallback (offeredTable hooks key value htab idx hval)
              ((offeredTable hooks key value htab idx hval).table
                (createTarget htab idx hval).toNat).entry key (some value) .create flag =
              some next ∧
            createEntry hooks .succeeds key value htab flag hval idx =
              (.success 1 (createTarget htab idx hval), next)) := by
  obtain ⟨keyCopied, dataCopied⟩ := allocation
  rw [createEntry, if_neg notFull]
  cases keyCopied with
  | false => exact .inl ⟨rfl, if_pos (.inl rfl)⟩
  | true =>
    cases dataCopied with
    | false => exact .inl ⟨rfl, if_pos (.inr rfl)⟩
    | true =>
      have copied : createEntry hooks .succeeds key value htab flag hval idx = _ :=
        (if_neg notFull).trans (if_neg (by simp [createdSlot, strdup, Allocation.succeeds]))
      rw [copied]
      exact .inr ⟨rfl, hooks.decision (offeredTable hooks key value htab idx hval)
        ((offeredTable hooks key value htab idx hval).table
          (createTarget htab idx hval).toNat).entry
        key (some value) .create flag (fun errno => (HSearchReturn.failure errno,
          hdelete (offeredTable hooks key value htab idx hval) (createTarget htab idx hval)))
        fun next => (HSearchReturn.success 1 (createTarget htab idx hval), next)⟩

-- Both rejections of the create path end in `_hdelete` of the slot just written.
theorem hdelete_offered_same :
    ∃ slot : Slot, slot.used = -1 ∧ (hdelete (offeredTable hooks key value htab idx hval)
      (createTarget htab idx hval)).Same (htab.setSlot (createTarget htab idx hval) slot) := by
  have same : (offeredTable hooks key value htab idx hval).Same _ := initAttributes_same ..
  refine ⟨⟨-1, ((offeredTable hooks key value htab idx hval).table
    (createTarget htab idx hval).toNat).entry⟩, rfl, rfl, ?_, fun index => ?_⟩
  · exact UInt32.add_sub_cancel htab.filled 1
  · by_cases atTarget : index = (createTarget htab idx hval).toNat
    · subst atTarget
      simp only [hdelete, HSearchData.setSlot, Function.update_self]
      exact ⟨rfl, rfl, rfl⟩
    · have sameSlot := same.slots index
      simp only [createdTable, HSearchData.withFilled, HSearchData.setSlot, ne_eq, atTarget,
        not_false_eq_true, Function.update_of_ne] at sameSlot
      simpa only [hdelete, HSearchData.setSlot, ne_eq, atTarget, not_false_eq_true,
        Function.update_of_ne] using sameSlot

end

/-! ## Updates and the invariant -/

variable {key : CString}

namespace HSearchData

@[simp] theorem setSlot_size (htab : HSearchData) (idx : UInt32) (slot : Slot) :
    (htab.setSlot idx slot).size = htab.size := rfl

@[simp] theorem setSlot_filled (htab : HSearchData) (idx : UInt32) (slot : Slot) :
    (htab.setSlot idx slot).filled = htab.filled := rfl

@[simp] theorem setSlot_cells (htab : HSearchData) :
    (htab.setSlot idx slot).cells = Function.update htab.cells idx.toNat slot.cell := by
  funext index
  by_cases same : index = idx.toNat
  · subst same
    simp [cells, setSlot]
  · simp [cells, setSlot, same]

theorem setSlot_setSlot (htab : HSearchData) (idx : UInt32) (first second : Slot) :
    (htab.setSlot idx first).setSlot idx second = htab.setSlot idx second := by
  simp [setSlot]

@[simp] theorem withFilled_size (htab : HSearchData) (filled : UInt32) :
    (htab.withFilled filled).size = htab.size := rfl

@[simp] theorem withFilled_cells (htab : HSearchData) (filled : UInt32) :
    (htab.withFilled filled).cells = htab.cells := rfl

@[simp] theorem withFilled_filled (htab : HSearchData) (filled : UInt32) :
    (htab.withFilled filled).filled = filled := rfl

variable {htab : HSearchData} {idx : UInt32} {slot : Slot} {filled : UInt32}

theorem Searchable.update (searchable : htab.Searchable) (sound : slot.Sound htab.size)
    (reads : slot.cell = cell) (valid : Valid (probing htab.size searchable.validSize)
      (Function.update htab.cells idx.toNat cell)) :
    ((htab.setSlot idx slot).withFilled filled).Searchable ∧ ∀ key value,
      ((htab.setSlot idx slot).withFilled filled).Stores key value ↔
        OpenAddressing.Stores (probing htab.size searchable.validSize)
          (Function.update htab.cells idx.toNat cell) key value := by
  subst reads
  rw [← setSlot_cells] at valid ⊢
  refine ⟨⟨searchable.validSize, fun index lower upper => ?_, valid⟩, HSearchData.stores_iff
    ((htab.setSlot idx slot).withFilled filled) searchable.validSize⟩
  by_cases same : index = idx.toNat
  · subst same
    simpa [withFilled, setSlot] using sound
  · simpa [withFilled, setSlot, same] using searchable.sound index lower upper

theorem Searchable.mem_indices (searchable : htab.Searchable)
    (lower : 1 ≤ index) (upper : index ≤ htab.size.toNat) :
    index ∈ (probing htab.size searchable.validSize).indices :=
  Finset.mem_Icc.mpr ⟨lower, upper⟩

theorem Searchable.withData (searchable : htab.Searchable) (value : CString)
    (lower : 1 ≤ idx.toNat) (upper : idx.toNat ≤ htab.size.toNat)
    (live : htab.cells idx.toNat = .live key old) :
    (htab.withData idx (some value)).Searchable ∧ (htab.withData idx (some value)).cells =
        Function.update htab.cells idx.toNat (.live key value) ∧
      ∀ other stored, (htab.withData idx (some value)).Stores other stored ↔
        (key = other ∧ value = stored) ∨ (other ≠ key ∧ htab.Stores other stored) := by
  have held := searchable.holds lower upper live
  have holds : Slot.Holds htab.size { htab.table idx.toNat with
      entry := { (htab.table idx.toNat).entry with data := some value } } key value :=
    ⟨held.used, held.key, rfl⟩
  have reads := holds.cell searchable.validSize.large
  obtain ⟨kept, stores⟩ := searchable.update (.inr (.inr ⟨key, value, holds⟩)) reads
    (searchable.valid.replace live)
  refine ⟨kept, htab.setSlot_cells.trans (by rw [reads]), fun other stored => ?_⟩
  rw [htab.stores_iff searchable.validSize,
    ← stores_replace_iff searchable.valid (searchable.mem_indices lower upper) live]
  exact stores other stored

theorem Searchable.bury (searchable : htab.Searchable) (tombstone : slot.used = -1)
    (idx filled : UInt32) : ((htab.setSlot idx slot).withFilled filled).Searchable ∧
      (htab.setSlot idx slot).cells = Function.update htab.cells idx.toNat .deleted ∧ ∀ key value,
        ((htab.setSlot idx slot).withFilled filled).Stores key value ↔
          OpenAddressing.Stores (probing htab.size searchable.validSize)
            (Function.update htab.cells idx.toNat .deleted) key value := by
  have reads : slot.cell = .deleted := by
    simp [Slot.cell, tombstone]
  obtain ⟨kept, stores⟩ := searchable.update (.inr (.inl tombstone)) reads searchable.valid.bury
  exact ⟨kept, htab.setSlot_cells.trans (by rw [reads]), stores⟩

namespace Invariant

theorem filled_le_size (invariant : htab.Invariant) : htab.filled.toNat ≤ htab.size.toNat := by
  rw [invariant.filled]
  calc (liveIndices (probing htab.size invariant.validSize) htab.cells).card
      ≤ (Finset.Icc 1 htab.size.toNat).card := Finset.card_filter_le _ _
    _ = htab.size.toNat := by simp

theorem withData (invariant : htab.Invariant) (value : CString)
    (lower : 1 ≤ idx.toNat) (upper : idx.toNat ≤ htab.size.toNat)
    (live : htab.cells idx.toNat = .live key old) :
    (htab.withData idx (some value)).Invariant ∧
      ∀ other stored, (htab.withData idx (some value)).Stores other stored ↔
        (key = other ∧ value = stored) ∨ (other ≠ key ∧ htab.Stores other stored) := by
  obtain ⟨kept, cells, stores⟩ := invariant.toSearchable.withData value lower upper live
  refine ⟨⟨kept, ?_⟩, stores⟩
  rw [cells]
  exact invariant.filled.trans
    (card_liveIndices_replace (invariant.mem_indices lower upper) (by rw [live]; rfl)).symm

theorem delete (invariant : htab.Invariant) (lower : 1 ≤ idx.toNat)
    (upper : idx.toNat ≤ htab.size.toNat) (live : htab.cells idx.toNat = .live key old) :
    (hdelete htab idx).Invariant ∧ ∀ other stored, (hdelete htab idx).Stores other stored ↔
        (other ≠ key ∧ htab.Stores other stored) := by
  have member := invariant.mem_indices lower upper
  have count := card_liveIndices_bury member (congrArg Cell.isLive live)
  have filledEq := invariant.filled
  have filled : (htab.filled - 1).toNat = htab.filled.toNat - 1 := by
    apply UInt32.toNat_sub_of_le
    rw [UInt32.le_iff_toNat_le]
    change 1 ≤ htab.filled.toNat
    omega
  have tombstone : Slot.used { used := -1, entry :=
    { (htab.table idx.toNat).entry with callback := none, flags := 0 } } = -1 := rfl
  obtain ⟨kept, cells, stores⟩ :=
    invariant.toSearchable.bury tombstone idx (htab.filled - 1)
  refine ⟨⟨kept, ?_⟩, fun other stored => ?_⟩
  · change (htab.filled - 1).toNat = (liveIndices _ (htab.setSlot idx _).cells).card
    rw [cells, filled]
    exact Nat.sub_eq_of_eq_add (filledEq.trans count.symm)
  · rw [htab.stores_iff invariant.validSize, ← stores_bury_iff invariant.valid member live]
    exact stores other stored

theorem create (invariant : htab.Invariant) (absent : htab.Absent key)
    (notFull : htab.filled ≠ htab.size) (inside : count < htab.size.toNat)
    (reached : probeAt htab.size key count = idx) (notLive : (htab.cells idx.toNat).isLive = false)
    (passed : ∀ earlier < count, htab.cells (probeAt htab.size key earlier).toNat ≠ .free)
    (holds : slot.Holds htab.size key value) :
    ((htab.setSlot idx slot).withFilled (htab.filled + 1)).Invariant ∧ ∀ other stored,
        ((htab.setSlot idx slot).withFilled (htab.filled + 1)).Stores other stored ↔
          (key = other ∧ value = stored) ∨ htab.Stores other stored := by
  have bounds := invariant.validSize.probeAt_bounds key count
  rw [reached] at bounds
  have member := invariant.mem_indices bounds.1 bounds.2
  have reads := holds.cell invariant.validSize.large
  have filled : (htab.filled + 1).toNat = htab.filled.toNat + 1 := by
    have upper := invariant.filled_le_size
    have sizeLt := htab.size.toNat_lt
    have different : htab.filled.toNat ≠ htab.size.toNat := fun equal =>
      notFull (UInt32.toNat_inj.mp equal)
    rw [UInt32.toNat_add]
    apply Nat.mod_eq_of_lt
    change htab.filled.toNat + 1 < 2 ^ 32
    omega
  obtain ⟨kept, stores⟩ := invariant.toSearchable.update (.inr (.inr ⟨key, value, holds⟩)) reads
    (invariant.valid.store ((htab.absent_iff invariant.validSize key).mp absent)
      inside (congrArg UInt32.toNat reached) passed)
  refine ⟨⟨kept, ?_⟩, fun other stored => ?_⟩
  · rw [withFilled_cells, setSlot_cells, reads, withFilled_filled, filled, invariant.filled]
    exact (card_liveIndices_store member notLive).symm
  · rw [stores, stores_store_iff member notLive, ← htab.stores_iff invariant.validSize]

end Invariant

end HSearchData

end UBootV210.Environment
