import UBootV210.Environment.HashTableMap

/-! # Failed updates of the environment

When does an ENTER that returns zero leave the table as its callers see it? A
refused change does, unless the create path had already written over a live
entry. Running out of memory does not. -/

namespace UBootV210.Environment

open OpenAddressing

def Observation.answer (observed : Observation) : Option (Option CString) :=
  if observed.ret = 0 then none else some observed.value

def lookup (hooks : Hooks) (htab : HSearchData) (key : CString) :
    Exec (Option (Option CString)) :=
  (perform hooks htab (.find key)).map fun result => result.1.answer

structure SameView (hooks : Hooks) (before after : HSearchData) : Prop where
  lookup : ∀ key, lookup hooks after key = lookup hooks before key
  filled : after.filled = before.filled

/-- The call returns, and when it returns zero nothing has changed. -/
def FailsCleanly (hooks : Hooks) (htab : HSearchData) (key value : CString) (flag : Int)
    (allocation : Allocation) : Prop :=
  ∃ observed next, perform hooks htab (.enter key value flag allocation) = .ok (observed, next) ∧
    (observed.ret = 0 → SameView hooks htab next)

/-- Every `strdup` that the call reaches succeeds, and a creation that is going
to be refused has not taken the slot of a live entry. -/
structure FailureSafe (hooks : Hooks) (htab : HSearchData) (key value : CString) (flag : Int)
    (allocation : Allocation) : Prop where
  overwrite : ∀ (idx : UInt32) old, 1 ≤ idx.toNat → idx.toNat ≤ htab.size.toNat →
    htab.cells idx.toNat = .live key old →
    overwriteAccepted hooks key value htab flag idx = true → allocation.data = true
  create : htab.Absent key → htab.filled ≠ htab.size → (allocation.key && allocation.data) = true ∧
      (htab.HasRoom key ∨ createAccepted hooks key value htab flag
        (hashValue htab.size key) (hashValue htab.size key) = true)

/-! ## Searches, also on tables that an update has damaged -/

variable {next : HSearchData} {idx : UInt32}

section

variable {htab : HSearchData} {key : CString} {count : Nat}

theorem Passes.of_same (passes : Passes htab key count) (same : next.Same htab) :
    Passes next key count := by
  have slot := same.slots (probeAt htab.size key count).toNat
  constructor
  · rw [HSearchData.slotAt, same.size, slot.used]
    exact passes.used
  · rw [HSearchData.slotAt, same.size, slot.used, slot.key]
    exact passes.other

theorem Passes.setSlot (passes : Passes htab key count)
    (elsewhere : (probeAt htab.size key count).toNat ≠ idx.toNat) (slot : Slot) (filled : UInt32) :
    Passes ((htab.setSlot idx slot).withFilled filled) key count := by
  have unchanged : ((htab.setSlot idx slot).withFilled filled).slotAt key count =
      htab.slotAt key count :=
    Function.update_of_ne elsewhere ..
  constructor
  · rw [unchanged]
    exact passes.used
  · rw [unchanged]
    exact passes.other

variable (hooks : Hooks) (valid : ValidSize htab.size) (inside : count < htab.size.toNat)
  (passes : ∀ earlier < count, Passes htab key earlier)
  (usedEq : (htab.slotAt key count).used = (hashValue htab.size key).toNat)

include valid inside passes usedEq

theorem lookup_hit (keyEq : (htab.slotAt key count).entry.key = some key) :
    lookup hooks htab key = .ok (some (htab.slotAt key count).entry.data) := by
  have probed := probe_hit hooks .succeeds ⟨key, none⟩ .find 0 valid inside passes usedEq keyEq
  have bounds := valid.probeAt_bounds key count
  have nonzero : (probeAt htab.size key count).toNat ≠ 0 := by omega
  simp [lookup, perform, hsearchR, probed, hit, Except.map, observe, HSearchReturn.success,
    Observation.answer, HSearchData.slotAt, nonzero]

theorem lookup_nullPointer (keyEq : (htab.slotAt key count).entry.key = none) :
    lookup hooks htab key = .error .nullPointer := by
  have probed := probe_nullPointer hooks .succeeds ⟨key, none⟩ .find 0 valid inside passes
    usedEq keyEq
  simp [lookup, perform, hsearchR, probed, Except.map]

end

variable {slot : Slot}

namespace HSearchData.Searchable

variable {htab : HSearchData} {key value : CString}

variable (hooks : Hooks) (searchable : htab.Searchable)
include searchable

theorem lookup_stored (stored : htab.Stores key value) :
    lookup hooks htab key = .ok (some (some value)) := by
  obtain ⟨index, lower, upper, live⟩ := stored
  obtain ⟨count, inside, rfl⟩ := searchable.validSize.exists_probeAt key lower upper
  have held := searchable.holds lower upper live
  rw [lookup_hit hooks searchable.validSize inside (searchable.passes_before inside live)
    held.used held.key, HSearchData.slotAt, held.data]

theorem lookup_absent (absent : htab.Absent key) : lookup hooks htab key = .ok none := by
  simp [lookup, perform, searchable.find_absent hooks .succeeds 0 none absent, Except.map,
    observe, HSearchReturn.failure, Observation.answer]

theorem lookup_eq (nextSearchable : next.Searchable)
    (stores : ∀ key value, next.Stores key value ↔ htab.Stores key value) (key : CString) :
    lookup hooks next key = lookup hooks htab key := by
  by_cases stored : ∃ value, htab.Stores key value
  · obtain ⟨value, stored⟩ := stored
    rw [searchable.lookup_stored hooks stored,
      nextSearchable.lookup_stored hooks ((stores key value).mpr stored)]
  · have absent : htab.Absent key := not_exists.mp stored
    rw [searchable.lookup_absent hooks absent]
    exact nextSearchable.lookup_absent hooks fun value kept =>
      absent value ((stores key value).mp kept)

theorem sameView (nextSearchable : next.Searchable) (filled : next.filled = htab.filled)
    (stores : ∀ key value, next.Stores key value ↔ htab.Stores key value) :
    SameView hooks htab next :=
  ⟨searchable.lookup_eq hooks nextSearchable stores, filled⟩

theorem createTarget_reached (stops : htab.StopsAt key idx) : ∃ count < htab.size.toNat,
      probeAt htab.size key count = createTarget htab idx (hashValue htab.size key) ∧
      ∀ earlier < count, htab.cells (probeAt htab.size key earlier).toNat ≠ .free := by
  by_cases room : htab.HasRoom key
  · obtain ⟨count, inside, reached, _, passed⟩ := searchable.createTarget_of_room room stops
    exact ⟨count, inside, reached, passed⟩
  · have large := searchable.validSize.large
    refine ⟨0, by omega, (searchable.createTarget_of_no_room room stops).1.symm, ?_⟩
    intro earlier earlierLt
    omega

theorem createdTable (absent : htab.Absent key) {idx : UInt32} (stops : htab.StopsAt key idx) :
    (createdTable .succeeds key value htab idx (hashValue htab.size key)).Searchable := by
  obtain ⟨count, inside, reached, passed⟩ := searchable.createTarget_reached stops
  have holds := createdSlot_holds htab.size key value
    (htab.table (createTarget htab idx (hashValue htab.size key)).toNat)
  exact (searchable.update (.inr (.inr ⟨key, value, holds⟩)) (holds.cell searchable.validSize.large)
    (searchable.valid.store ((htab.absent_iff searchable.validSize key).mp absent)
      inside (congrArg UInt32.toNat reached) passed)).1

end HSearchData.Searchable

-- The stopping index matters to the hooks only through the slot it selects.
theorem createAccepted_congr (target : createTarget htab left hval = createTarget htab right hval) :
    createAccepted hooks key value htab flag left hval =
      createAccepted hooks key value htab flag right hval := by
  simp only [createAccepted, createdTable, target]

theorem createTarget_first : createTarget htab hval hval = hval := by
  unfold createTarget firstDeleted
  split <;> simp_all

namespace HSearchData.Searchable

variable {htab : HSearchData} {key value : CString} {flag : Int} {allocation : Allocation}

variable (hooks : Hooks) (searchable : htab.Searchable)
include searchable

theorem createAccepted_of_no_room (noRoom : ¬ htab.HasRoom key) (stops : htab.StopsAt key idx) :
    createAccepted hooks key value htab flag idx (hashValue htab.size key) =
      createAccepted hooks key value htab flag (hashValue htab.size key)
        (hashValue htab.size key) := by
  apply createAccepted_congr
  rw [createTarget_first]
  exact (searchable.createTarget_of_no_room noRoom stops).1

/-- An ENTER that does not run out of memory returns, and searches keep working even when it
wrote over a live entry. If it fails the table is as it was, or has one tombstone more. -/
theorem enter_outcome
    (overwrite : ∀ (idx : UInt32) old, 1 ≤ idx.toNat → idx.toNat ≤ htab.size.toNat →
      htab.cells idx.toNat = .live key old →
      overwriteAccepted hooks key value htab flag idx = true → allocation.data = true)
    (create : htab.Absent key → htab.filled ≠ htab.size →
      (allocation.key && allocation.data) = true) :
    ∃ result next, hsearchR hooks allocation ⟨key, some value⟩ .enter htab flag =
        .ok (result, next) ∧ next.Searchable ∧ next.size = htab.size ∧
      (result.ret = 0 → next = htab ∨ htab.Absent key ∧ htab.filled ≠ htab.size ∧
        ∃ idx slot, htab.StopsAt key idx ∧
          createAccepted hooks key value htab flag idx (hashValue htab.size key) = false ∧
          slot.used = -1 ∧
          next.Same (htab.setSlot (createTarget htab idx (hashValue htab.size key)) slot)) := by
  by_cases stored : ∃ old, htab.Stores key old
  · obtain ⟨old, stored⟩ := stored
    obtain ⟨idx, lower, upper, live, searched⟩ :=
      searchable.enter_stored hooks allocation flag value stored
    rw [searched]
    rcases overwriteEntry_cases hooks allocation key value htab flag idx with
      ⟨_, errno, outcome⟩ | ⟨accepted, called, ran, outcome⟩
    · exact ⟨_, htab, congrArg Except.ok outcome, searchable, rfl, fun _ => .inl rfl⟩
    · rw [overwrite idx old lower upper live accepted] at outcome
      have same := Hooks.runCallback_same ran
      refine ⟨_, _, congrArg Except.ok outcome, ((same.searchable searchable).withData value lower
        (same.size ▸ upper) (same.cells ▸ live)).1, same.size, ?_⟩
      intro failed
      change idx.toNat = 0 at failed
      omega
  · have absent : htab.Absent key := not_exists.mp stored
    obtain ⟨idx, stops, searched⟩ := searchable.enter_absent hooks allocation flag value absent
    rw [searched]
    by_cases full : htab.filled = htab.size
    · exact ⟨_, htab, congrArg Except.ok (createEntry_full _ _ _ _ _ _ _ _ full), searchable,
        rfl, fun _ => .inl rfl⟩
    rcases createEntry_cases hooks allocation key value htab flag idx (hashValue htab.size key) full
      with ⟨failed, _⟩ | ⟨rfl, ⟨refused, errno, outcome⟩ | ⟨_, next, ran, outcome⟩⟩
    · rw [create absent full] at failed
      cases failed
    · obtain ⟨slot, tombstone, same⟩ :=
        hdelete_offered_same hooks key value htab idx (hashValue htab.size key)
      exact ⟨_, _, congrArg Except.ok outcome,
        same.searchable (searchable.bury tombstone _ htab.filled).1, same.size,
        fun _ => .inr ⟨absent, full, idx, slot, stops, refused, tombstone, same⟩⟩
    · have same := (Hooks.runCallback_same ran).trans (initAttributes_same ..)
      exact ⟨_, next, congrArg Except.ok outcome,
        same.searchable (searchable.createdTable absent stops), same.size, nofun⟩

theorem enter_safe (safe : FailureSafe hooks htab key value flag allocation) :
    ∃ observed next, perform hooks htab (.enter key value flag allocation) = .ok (observed, next) ∧
      next.Searchable ∧ (observed.ret = 0 → SameView hooks htab next) := by
  obtain ⟨result, next, searched, nextSearchable, _, failure⟩ :=
    searchable.enter_outcome hooks safe.overwrite fun absent full => (safe.create absent full).1
  refine ⟨_, next, by rw [perform, searched]; rfl, nextSearchable, fun failed => ?_⟩
  rcases failure failed with rfl | ⟨absent, full, idx, slot, stops, accepted, tombstone, same⟩
  · exact searchable.sameView hooks searchable rfl fun _ _ => Iff.rfl
  · have room : htab.HasRoom key := by
      by_contra noRoom
      rw [searchable.createAccepted_of_no_room hooks noRoom stops] at accepted
      rcases (safe.create absent full).2 with room | accepting
      · exact noRoom room
      · rw [accepting] at accepted
        cases accepted
    obtain ⟨count, _, reached, notLive, _⟩ := searchable.createTarget_of_room room stops
    have bounds := searchable.validSize.probeAt_bounds key count
    rw [reached] at bounds
    apply searchable.sameView hooks nextSearchable same.filled
    intro other content
    rw [same.stores_iff, htab.stores_iff searchable.validSize,
      ← stores_bury_dead_iff (searchable.mem_indices bounds.1 bounds.2) notLive]
    exact (searchable.bury tombstone _ htab.filled).2.2 other content

/-! ## Failures that show -/

-- A search that reached the slot before it was written still reaches it.
theorem reaches_setSlot (inside : count < htab.size.toNat)
    (reached : probeAt htab.size key count = idx)
    (passes : ∀ earlier < count, Passes htab key earlier) (slot : Slot) (filled : UInt32) :
    (∀ earlier < count, Passes ((htab.setSlot idx slot).withFilled filled) key earlier) ∧
      ((htab.setSlot idx slot).withFilled filled).slotAt key count = slot := by
  subst reached
  refine ⟨?_, Function.update_self ..⟩
  intro earlier earlierLt
  apply (passes earlier earlierLt).setSlot
  intro same
  have sameCount := searchable.validSize.probeAt_injOn key (by omega) inside same
  omega

theorem lookup_lost_data (lower : 1 ≤ idx.toNat) (upper : idx.toNat ≤ htab.size.toNat)
    (live : htab.cells idx.toNat = .live key old) (same : next.Same (htab.withData idx none)) :
    lookup hooks next key = .ok (some none) := by
  obtain ⟨count, inside, reached⟩ := searchable.validSize.exists_probeAt key lower upper
  have held := searchable.holds lower upper live
  obtain ⟨passes, written⟩ := searchable.reaches_setSlot inside (UInt32.toNat_inj.mp reached)
    (searchable.passes_before inside (by rw [reached]; exact live))
    { htab.table idx.toNat with
      entry := { (htab.table idx.toNat).entry with data := none } } htab.filled
  have size : next.size = htab.size := same.size
  have slot : (next.slotAt key count).Same
      { htab.table idx.toNat with
        entry := { (htab.table idx.toNat).entry with data := none } } := by
    rw [← written, HSearchData.slotAt, size]
    exact same.slots _
  have found := @lookup_hit next key count hooks
    (by rw [size]; exact searchable.validSize) (by rw [size]; exact inside)
    (fun earlier earlierLt => (passes earlier earlierLt).of_same same)
    (by rw [slot.used, size]; exact held.used) (slot.key.trans held.key)
  rw [found, slot.data]

theorem lookup_outOfMemory (absent : htab.Absent key) (stops : htab.StopsAt key idx) :
    lookup hooks ((Environment.createdTable allocation key value htab idx
      (hashValue htab.size key)).withFilled htab.filled) key ≠ .ok none := by
  obtain ⟨count, inside, reached, passed⟩ := searchable.createTarget_reached stops
  have htabPasses : ∀ earlier < count, Passes htab key earlier := by
    intro earlier earlierLt
    apply searchable.passes (passed earlier earlierLt)
    intro content live
    have bounds := searchable.validSize.probeAt_bounds key earlier
    exact absent content ⟨_, bounds.1, bounds.2, live⟩
  obtain ⟨passes, written⟩ := searchable.reaches_setSlot inside reached htabPasses
    (createdSlot allocation key value (hashValue htab.size key)
      (htab.table (createTarget htab idx (hashValue htab.size key)).toNat)) htab.filled
  change lookup hooks ((htab.setSlot (createTarget htab idx (hashValue htab.size key)) _).withFilled
    htab.filled) key ≠ _
  have valid : ValidSize ((htab.setSlot (createTarget htab idx (hashValue htab.size key))
      (createdSlot allocation key value (hashValue htab.size key)
        (htab.table (createTarget htab idx (hashValue htab.size key)).toNat))).withFilled
      htab.filled).size := searchable.validSize
  intro none
  cases allocated : allocation.key with
  | true =>
    have found := lookup_hit hooks valid inside passes
      (by rw [written]; rfl) (by rw [written]; simp [createdSlot, strdup, allocated])
    cases found.symm.trans none
  | false =>
    have faulted := lookup_nullPointer hooks valid inside passes
      (by rw [written]; rfl) (by rw [written]; simp [createdSlot, strdup, allocated])
    cases faulted.symm.trans none

theorem lookup_buried (tombstone : slot.used = -1) (lower : 1 ≤ idx.toNat)
    (upper : idx.toNat ≤ htab.size.toNat) (live : htab.cells idx.toNat = .live other stored)
    (same : next.Same (htab.setSlot idx slot)) : lookup hooks next other = .ok none := by
  obtain ⟨buried, _, stores⟩ := searchable.bury tombstone idx htab.filled
  apply (same.searchable buried).lookup_absent hooks
  intro content kept
  have update := (stores other content).mp ((same.stores_iff other content).mp kept)
  rw [stores_bury_iff searchable.valid (searchable.mem_indices lower upper) live] at update
  exact update.1 rfl

theorem failureSafe_of_failsCleanly (clean : FailsCleanly hooks htab key value flag allocation) :
    FailureSafe hooks htab key value flag allocation := by
  obtain ⟨observed, next, performed, view⟩ := clean
  constructor
  · intro idx old lower upper live accepted
    by_contra notAllocated
    rw [Bool.not_eq_true] at notAllocated
    obtain ⟨hitIdx, sameIdx, probed⟩ := searchable.probe_stored hooks allocation
      ⟨key, some value⟩ .enter flag lower upper live
    cases UInt32.toNat_inj.mp sameIdx
    rcases overwriteEntry_cases hooks allocation key value htab flag idx with
      ⟨refused, _⟩ | ⟨_, called, ran, outcome⟩
    · rw [accepted] at refused
      cases refused
    have same := Hooks.runCallback_same ran
    rw [notAllocated] at outcome
    simp only [perform, hsearchR, probed, hit, outcome] at performed
    cases performed
    have lost : (called.withData idx none).Same (htab.withData idx none) :=
      same.setSlot idx ⟨(same.slots _).used, (same.slots _).key, rfl⟩
    have after := ((view rfl).lookup key).symm.trans
      (searchable.lookup_lost_data hooks lower upper live lost)
    rw [searchable.lookup_stored hooks ⟨idx.toNat, lower, upper, live⟩] at after
    cases after
  · intro absent notFull
    obtain ⟨idx, stops, searched⟩ := searchable.enter_absent hooks allocation flag value absent
    rcases createEntry_cases hooks allocation key value htab flag idx (hashValue htab.size key)
      notFull with ⟨_, outcome⟩ | ⟨rfl, ⟨refused, errno, outcome⟩ | ⟨accepted, _⟩⟩
    · rw [perform, searched, outcome] at performed
      cases performed
      apply absurd (searchable.lookup_absent hooks absent)
      rw [← (view rfl).lookup key]
      exact searchable.lookup_outOfMemory hooks absent stops
    · refine ⟨rfl, .inl ?_⟩
      by_contra noRoom
      obtain ⟨target, other, stored, live⟩ := searchable.createTarget_of_no_room noRoom stops
      obtain ⟨slot, tombstone, same⟩ :=
        hdelete_offered_same hooks key value htab idx (hashValue htab.size key)
      rw [perform, searched, outcome] at performed
      cases performed
      have hash := hashValue_bounds (Nat.le_of_succ_le searchable.validSize.large) key
      rw [target] at same view
      have after := searchable.lookup_buried hooks tombstone hash.1 hash.2.le live same
      rw [(view rfl).lookup other,
        searchable.lookup_stored hooks ⟨_, hash.1, hash.2.le, live⟩] at after
      cases after
    · refine ⟨rfl, or_iff_not_imp_left.mpr fun noRoom => ?_⟩
      rw [← searchable.createAccepted_of_no_room hooks noRoom stops, accepted]

theorem failsCleanly_iff : FailsCleanly hooks htab key value flag allocation ↔
      FailureSafe hooks htab key value flag allocation := by
  constructor
  · exact searchable.failureSafe_of_failsCleanly hooks
  · intro safe
    obtain ⟨observed, next, performed, _, view⟩ := searchable.enter_safe hooks safe
    exact ⟨observed, next, performed, view⟩

theorem delete_returns (key : CString) (flag : Int) :
    ∃ ret next, hdeleteR hooks key htab flag = .ok (ret, next) ∧ next.Searchable := by
  by_cases stored : ∃ old, htab.Stores key old
  · obtain ⟨old, stored⟩ := stored
    obtain ⟨idx, _, _, _, ⟨_, outcome⟩ | ⟨_, called, ran, outcome⟩⟩ :=
      searchable.hdeleteR_cases hooks flag stored
    · exact ⟨0, htab, outcome, searchable⟩
    · have same := Hooks.runCallback_same ran
      exact ⟨1, _, outcome, ((same.searchable searchable).bury rfl _ _).1⟩
  · have searched := searchable.find_absent hooks .succeeds 0 none (not_exists.mp stored)
    simp only [hdeleteR, searched, HSearchReturn.failure, if_true]
    exact ⟨0, htab, rfl, searchable⟩

theorem enter_returns (key value : CString) (flag : Int) :
    ∃ result next, hsearchR hooks .succeeds ⟨key, some value⟩ .enter htab flag =
      .ok (result, next) ∧ next.Searchable ∧ next.size = htab.size := by
  obtain ⟨result, next, searched, kept, size, _⟩ :=
    @enter_outcome htab key value flag .succeeds hooks searchable (fun _ _ _ _ _ _ => rfl)
      fun _ _ => rfl
  exact ⟨result, next, searched, kept, size⟩

theorem find_unchanged (performed : perform hooks htab (.find key) = .ok (observed, next)) :
    next = htab := by
  by_cases stored : ∃ value, htab.Stores key value
  · obtain ⟨value, stored⟩ := stored
    obtain ⟨idx, _, _, _, searched⟩ := searchable.find_stored hooks .succeeds 0 none stored
    rw [perform, searched] at performed
    cases performed
    rfl
  · have searched := searchable.find_absent hooks .succeeds 0 none (not_exists.mp stored)
    rw [perform, searched] at performed
    cases performed
    rfl

end HSearchData.Searchable

def Operation.Safe (hooks : Hooks) (htab : HSearchData) : Operation → Prop
  | .enter key value flag allocation => FailureSafe hooks htab key value flag allocation
  | _ => True

def SafeStep (hooks : Hooks) (htab : HSearchData) (label : Operation × Observation)
    (next : HSearchData) : Prop :=
  StoreStep hooks htab label next ∧ label.1.Safe hooks htab

theorem StoreStep.searchable (performed : StoreStep hooks htab (operation, observed) next)
    (searchable : htab.Searchable)
    (entered : ∀ key value flag allocation, operation = .enter key value flag allocation →
      next.Searchable) : next.Searchable := by
  cases operation with
  | enter key value flag allocation => exact entered key value flag allocation rfl
  | find key =>
    rw [searchable.find_unchanged hooks performed]
    exact searchable
  | delete key flag =>
    obtain ⟨ret, after, outcome, kept⟩ := searchable.delete_returns hooks key flag
    rw [StoreStep, perform, outcome] at performed
    cases performed
    exact kept

theorem SafeStep.searchable
    (step : SafeStep hooks htab label next) (searchable : htab.Searchable) : next.Searchable := by
  obtain ⟨performed, safe⟩ := step
  obtain ⟨operation, observed⟩ := label
  refine StoreStep.searchable performed searchable ?_
  rintro key value flag allocation rfl
  obtain ⟨_, _, outcome, kept, _⟩ := searchable.enter_safe hooks safe
  cases outcome.symm.trans performed
  exact kept

/-- In every table reached by calls that met the condition, whatever the hooks
answer, an ENTER meets it exactly when it returns and its failure is invisible. -/
theorem failed_update_invisible_iff (hooks : Hooks) (nel : UInt32)
    (lower : 64 ≤ nel.toNat) (upper : nel.toNat ≤ 512) :
    ∃ start, hcreateR nel true = .ok (some start) ∧
      ∀ trace last, Run (SafeStep hooks) start trace last → ∀ key value flag allocation,
          FailsCleanly hooks last key value flag allocation ↔
            FailureSafe hooks last key value flag allocation := by
  obtain ⟨size, created, valid, _⟩ := hcreateR_importRange lower upper
  refine ⟨_, created, ?_⟩
  intro trace last run key value flag allocation
  have searchable : last.Searchable :=
    run.invariant (fun step => step.searchable) (emptyTable_invariant valid).toSearchable
  exact searchable.failsCleanly_iff hooks

theorem failureSafe_of_room (size : htab.size = 67) (unused : (htab.table 1).used = 0) :
    FailureSafe hooks htab key value flag .succeeds where
  overwrite _ _ _ _ _ _ := rfl
  create _ _ := ⟨rfl, .inl (.inl ⟨1, le_rfl, by rw [size]; decide, unused⟩)⟩

def refusingHooks : Hooks :=
  { permissiveHooks with changeOk := some fun _ _ op _ => op = .overwrite }

/-- Of two variables that are stored, one cannot be set again. -/
theorem failed_update_invisible_refused : ∃ start trace last,
    hcreateR 64 true = .ok (some start) ∧ Run (SafeStep refusingHooks) start trace last ∧
      last.filled = 2 ∧
      (∃ observed next, perform refusingHooks last
          (.enter (letter 97) (letter 122) 0 .succeeds) = .ok (observed, next) ∧
        observed.ret = 0) ∧
      FailsCleanly refusingHooks last (letter 97) (letter 122) 0 .succeeds := by
  obtain ⟨start, created, reached⟩ :=
    failed_update_invisible_iff refusingHooks 64 (by decide) (by decide)
  cases hcreateR_sixtyFour.symm.trans created
  obtain ⟨⟨firstSeen, middle⟩, first, size, unused, checks⟩ : ∃ result,
      perform refusingHooks (emptyTable 67) (.enter (letter 97) (letter 98) 0 .succeeds) =
        .ok result ∧ result.2.size = 67 ∧ (result.2.table 1).used = 0 ∧
      Exec.Returns (perform refusingHooks result.2 (.enter (letter 99) (letter 100) 0 .succeeds))
        fun after => after.2.size = 67 ∧ (after.2.table 1).used = 0 ∧ after.2.filled = 2 ∧
          Exec.Returns (perform refusingHooks after.2
            (.enter (letter 97) (letter 122) 0 .succeeds)) fun last => last.1.ret = 0 :=
    Exec.Returns.exists (by decide +kernel)
  obtain ⟨⟨secondSeen, last⟩, second, lastSize, lastUnused, filled, fails⟩ := checks.exists
  obtain ⟨⟨observed, next⟩, performed, zero⟩ := fails.exists
  have run : Run (SafeStep refusingHooks) (emptyTable 67) [(_, firstSeen), (_, secondSeen)] last :=
    .cons ⟨first, failureSafe_of_room rfl rfl⟩
      (.cons ⟨second, failureSafe_of_room size unused⟩ (.nil _))
  exact ⟨_, _, last, created, run, filled, ⟨observed, next, performed, zero⟩,
    (reached _ _ run _ _ _ _).mpr (failureSafe_of_room lastSize lastUnused)⟩

/-- Setting a variable again without memory for the new value returns zero, and
the old value is gone. -/
theorem failed_update_loses_value : hcreateR 64 true = .ok (some (emptyTable 67)) ∧
      ∃ trace last, Run (StoreStep permissiveHooks) (emptyTable 67) trace last ∧ ∃ observed next,
          perform permissiveHooks last (.enter (letter 97) (letter 99) 0 ⟨true, false⟩) =
            .ok (observed, next) ∧
          observed.ret = 0 ∧
          lookup permissiveHooks last (letter 97) = .ok (some (some (letter 98))) ∧
          lookup permissiveHooks next (letter 97) = .ok (some none) := by
  refine ⟨hcreateR_sixtyFour, ?_⟩
  obtain ⟨⟨trace, last⟩, executed, loses⟩ : ∃ result, execute permissiveHooks (emptyTable 67)
          [.enter (letter 97) (letter 98) 0 .succeeds] = .ok result ∧
        Exec.Returns (perform permissiveHooks result.2
          (.enter (letter 97) (letter 99) 0 ⟨true, false⟩)) fun after => after.1.ret = 0 ∧
            lookup permissiveHooks result.2 (letter 97) = .ok (some (some (letter 98))) ∧
            lookup permissiveHooks after.2 (letter 97) = .ok (some none) :=
    Exec.Returns.exists (by decide +kernel)
  obtain ⟨⟨observed, next⟩, performed, views⟩ := loses.exists
  exact ⟨trace, last, (execute_run executed).1, observed, next, performed, views⟩

end UBootV210.Environment
