import UBootV210.Environment.EnvFlags

/-! # A change of a list, entry by entry

`on_flags` and `on_callbacks` walk over the table and look variables up in it. On a
table with the invariant this is the same as going through the list once for every
entry. -/

namespace UBootV210.Environment

namespace HSearchData

variable (htab : HSearchData)

/-- The slots that `hwalk_r` visits. -/
def Visited (index : Nat) : Prop :=
  1 ≤ index ∧ index ≤ htab.size.toNat ∧ 0 < (htab.table index).used

instance (index : Nat) : Decidable (htab.Visited index) :=
  inferInstanceAs (Decidable (_ ∧ _ ∧ _))

theorem setAttributes_table (attributes : Entry → Attributes) (index : Nat) :
    (htab.setAttributes attributes).table index =
      if htab.Visited index then
        { htab.table index with
          entry := { (htab.table index).entry with
            toAttributes := attributes (htab.table index).entry } }
      else
        htab.table index := rfl

theorem setAttributes_visited :
    (htab.setAttributes attributes).Visited index ↔ htab.Visited index := by
  rw [Visited, ((htab.setAttributes_same attributes).slots index).used]
  rfl

variable {htab}

theorem ext_table {left right : HSearchData} (table : ∀ index, left.table index = right.table index)
    (size : left.size = right.size) (filled : left.filled = right.filled) : left = right := by
  obtain ⟨leftTable, leftSize, leftFilled⟩ := left
  obtain ⟨rightTable, rightSize, rightFilled⟩ := right
  cases size
  cases filled
  have same : leftTable = rightTable := funext table
  rw [same]

theorem setAttributes_setAttributes : (htab.setAttributes first).setAttributes second =
      htab.setAttributes fun entry => second { entry with toAttributes := first entry } := by
  apply ext_table
  · intro index
    rw [setAttributes_table, setAttributes_table, setAttributes_table]
    by_cases visited : htab.Visited index
    · rw [if_pos visited, if_pos (htab.setAttributes_visited.mpr visited)]
      simp only [visited, if_true]
    · rw [if_neg visited, if_neg fun again => visited (htab.setAttributes_visited.mp again)]
      simp only [visited, if_false]
  · rfl
  · rfl

theorem setAttributes_self (htab : HSearchData) :
    htab.setAttributes (fun stored => stored.toAttributes) = htab := by
  apply ext_table
  · intro index
    rw [setAttributes_table]
    split
    · rfl
    · rfl
  · rfl
  · rfl

theorem Searchable.visited_holds (searchable : htab.Searchable) (visited : htab.Visited index) :
    ∃ key value, (htab.table index).Holds htab.size key value := by
  rcases searchable.sound index visited.1 visited.2.1 with free | deleted | holds
  · have used := visited.2.2
    omega
  · have used := visited.2.2
    omega
  · exact holds

end HSearchData

/-! ## Walking the table -/

theorem hwalkLoop_table {callback : Entry → Entry} (count index : Nat) (htab : HSearchData)
    (other : Nat) :
    (hwalkLoop (fun entry => (0, callback entry)) count index htab).2.table other =
      if index ≤ other ∧ other < index + count ∧ 0 < (htab.table other).used then
        { htab.table other with entry := callback (htab.table other).entry }
      else
        htab.table other := by
  induction count generalizing index htab with
  | zero =>
    rw [if_neg (by omega)]
    rfl
  | succ count induction =>
    rw [hwalkLoop]
    by_cases used : 0 < (htab.table index).used
    · simp only [used, if_true, ne_eq, not_true_eq_false, if_false]
      rw [induction]
      by_cases same : other = index
      · subst same
        rw [if_neg (by omega), if_pos (by omega)]
        exact Function.update_self ..
      · simp only [ne_eq, same, not_false_eq_true, Function.update_of_ne]
        apply if_congr _ rfl rfl
        omega
    · simp only [used, if_false]
      rw [induction]
      apply if_congr _ rfl rfl
      constructor
      · intro found
        omega
      · rintro ⟨lower, upper, live⟩
        have different : other ≠ index := by
          rintro rfl
          exact used live
        omega

theorem hwalkLoop_same {callback : Entry → Entry} (count index : Nat) (htab : HSearchData) :
    (hwalkLoop (fun entry => (0, callback entry)) count index htab).2.size = htab.size ∧
      (hwalkLoop (fun entry => (0, callback entry)) count index htab).2.filled = htab.filled := by
  induction count generalizing index htab with
  | zero => exact ⟨rfl, rfl⟩
  | succ count induction =>
    rw [hwalkLoop]
    by_cases used : 0 < (htab.table index).used
    · simp only [used, if_true, ne_eq, not_true_eq_false, if_false]
      exact induction _ _
    · simp only [used, if_false]
      exact induction _ _

namespace ListedAttribute

variable (kind : ListedAttribute) {htab : HSearchData}

theorem hwalkR_clearEntry : (hwalkR htab kind.clearEntry).2 =
      htab.setAttributes fun entry => kind.clear entry.toAttributes := by
  have same := @hwalkLoop_same (fun entry => (kind.clearEntry entry).2) htab.size.toNat 1 htab
  apply HSearchData.ext_table
  · intro index
    have walked := @hwalkLoop_table (fun entry => (kind.clearEntry entry).2) htab.size.toNat 1 htab
      index
    rw [HSearchData.setAttributes_table]
    refine walked.trans (if_congr ?_ rfl rfl)
    rw [HSearchData.Visited]
    omega
  · exact same.1
  · exact same.2

def assignTo (name : CString) (value : Option CString) (entry : Entry) : Attributes :=
  if entry.key = some name then kind.assign value entry.toAttributes else entry.toAttributes

theorem setEntry_eq (searchable : htab.Searchable) :
    kind.setEntry name value htab = .ok (htab.setAttributes (kind.assignTo name value)) := by
  have other {index : Nat} (visited : htab.Visited index)
      (different : ∀ stored, htab.cells index ≠ .live name stored) :
      kind.assignTo name value (htab.table index).entry =
        (htab.table index).entry.toAttributes := by
    obtain ⟨key, stored, holds⟩ := searchable.visited_holds visited
    have notName : ¬ (htab.table index).entry.key = some name := by
      rw [holds.key]
      rintro same
      cases same
      exact different stored (holds.cell searchable.validSize.large)
    rw [assignTo, if_neg notName]
  rw [setEntry]
  by_cases found : ∃ stored, htab.Stores name stored
  · obtain ⟨stored, stores⟩ := found
    obtain ⟨idx, lower, upper, live, searched⟩ :=
      searchable.find_stored permissiveHooks .succeeds 0 none stores
    have held := searchable.holds lower upper live
    have visited : htab.Visited idx.toNat :=
      ⟨lower, upper, held.used_pos searchable.validSize.large⟩
    rw [searched, Exec.ok_bind]
    simp only [HSearchReturn.success]
    congr 1
    apply HSearchData.ext_table
    · intro index
      rw [HSearchData.setAttributes_table]
      by_cases at_ : index = idx.toNat
      · subst at_
        rw [if_pos visited, assignTo, if_pos held.key]
        exact Function.update_self ..
      · simp only [ne_eq, at_, not_false_eq_true, Function.update_of_ne]
        split
        case isTrue visitedOther =>
          have different (otherStored : CString) : htab.cells index ≠ .live name otherStored := by
            intro liveOther
            exact at_ (searchable.valid.unique
              (searchable.mem_indices visitedOther.1 visitedOther.2.1)
              (searchable.mem_indices lower upper) liveOther live)
          rw [other visitedOther different]
        · rfl
    · rfl
    · rfl
  · have absent : htab.Absent name := fun stored stores => found ⟨stored, stores⟩
    rw [searchable.find_absent permissiveHooks .succeeds 0 none absent, Exec.ok_bind]
    simp only [HSearchReturn.failure]
    congr 1
    apply HSearchData.ext_table
    · intro index
      rw [HSearchData.setAttributes_table]
      split
      case isTrue visited =>
        rw [other visited fun stored live => absent stored ⟨index, visited.1, visited.2.1, live⟩]
      · rfl
    · rfl
    · rfl

/-! ## Walking a list -/

theorem walkEntry_table (searchable : htab.Searchable) :
    walkEntry (fun name value htab => (0, htab >>= kind.setEntry name value)) entry (.ok htab) =
      (0, .ok (htab.setAttributes fun stored =>
        (walkEntry (kind.assignStep stored.key) entry stored.toAttributes).2)) := by
  simp only [walkEntry]
  split
  · rw [HSearchData.setAttributes_self]
  · rw [Exec.ok_bind, kind.setEntry_eq searchable]
    rfl

theorem walkEntries_assignStep : walkEntries (kind.assignStep key) (entry :: entries) attributes =
      walkEntries (kind.assignStep key) entries
        (walkEntry (kind.assignStep key) entry attributes).2 := by
  have zero : (walkEntry (kind.assignStep key) entry attributes).1 = 0 := by
    rw [walkEntry]
    split
    · rfl
    · rfl
  rw [walkEntries]
  simp only [zero, ne_eq, not_true_eq_false, if_false]

theorem walkEntries_table (searchable : htab.Searchable) :
    (walkEntries (fun name value htab => (0, htab >>= kind.setEntry name value)) entries
        (.ok htab)).2 =
      .ok (htab.setAttributes fun stored =>
        (walkEntries (kind.assignStep stored.key) entries stored.toAttributes).2) := by
  induction entries generalizing htab with
  | nil =>
    simp only [walkEntries]
    rw [HSearchData.setAttributes_self]
  | cons entry entries induction =>
    rw [walkEntries, kind.walkEntry_table searchable]
    simp only [ne_eq, not_true_eq_false, if_false]
    rw [induction ((htab.setAttributes_same _).searchable searchable),
      HSearchData.setAttributes_setAttributes]
    simp only [kind.walkEntries_assignStep]

theorem walkTable_eq (searchable : htab.Searchable) : kind.walkTable list (.ok htab) =
      .ok (htab.setAttributes fun stored => kind.walkOf stored.key list stored.toAttributes) := by
  cases list with
  | none =>
    have self := htab.setAttributes_self
    exact congrArg Except.ok self.symm
  | some list => exact kind.walkEntries_table searchable

theorem onChange_eq (searchable : htab.Searchable) :
    kind.onChange value htab = .ok (htab.setAttributes (kind.onChangeOf value)) := by
  have cleared := (htab.setAttributes_same fun stored =>
    kind.clear stored.toAttributes).searchable searchable
  have walked := ((htab.setAttributes fun stored => kind.clear stored.toAttributes
    ).setAttributes_same fun stored =>
      kind.walkOf stored.key (some kind.static) stored.toAttributes).searchable cleared
  rw [onChange, kind.hwalkR_clearEntry, kind.walkTable_eq cleared, kind.walkTable_eq walked,
    HSearchData.setAttributes_setAttributes, HSearchData.setAttributes_setAttributes]
  rfl

end ListedAttribute

/-- The hooks for `.flags` and `.callbacks` do what `on_flags` and `on_callbacks` do to the
table. -/
theorem Session.runCallback_listed {config : EnvConfig} {session : Session} {call : EnvCall}
    {htab : HSearchData} {entry : Entry} {kind : ListedAttribute} {id : CallbackId}
    (searchable : htab.Searchable)
    (listed : (id, kind) ∈
      [(onFlagsId, flagsAttribute config), (onCallbacksId, callbackAttribute config)])
    (bound : entry.callback = some id) :
    kind.onChange value htab = .ok (htab.setAttributes (kind.onChangeOf value)) ∧
      (session.hooks config call).runCallback htab entry name value op flag =
        some (htab.setAttributes (kind.onChangeOf value)) := by
  refine ⟨kind.onChange_eq searchable, ?_⟩
  rw [Hooks.runCallback, bound]
  simp only [List.mem_cons, List.not_mem_nil, or_false, Prod.mk.injEq] at listed
  rcases listed with ⟨rfl, rfl⟩ | ⟨rfl, rfl⟩
  · rfl
  · rfl

end UBootV210.Environment
