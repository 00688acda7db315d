import UBootV210.Environment.HashTableExportBound
import UBootV210.Environment.HashTableImportBound

/-! # Export followed by import

The text of an export is read back entry by entry. The entries then have to fit
into the table that the import creates for a text of that size. -/

namespace UBootV210.Environment

open CheckedMemory OpenAddressing

/-! ## Reading a line back -/

/-- A name that the import takes for a name when it starts a line. -/
structure ExportableKey (sep : UInt8) (key : CString) : Prop where
  nonempty : key.bytes ≠ []
  equals : equalsSign ∉ key.bytes
  separator : sep ∉ key.bytes
  start : ∀ byte, key.bytes.head? = some byte → isblank byte = false ∧ byte ≠ hashSign

structure Exportable (sep : UInt8) (entry : ExportEntry) : Prop where
  key : ExportableKey sep entry.key
  data : entry.data.bytes ≠ []

/-- A separator that is not read as anything else. -/
structure PlainSeparator (sep : UInt8) : Prop where
  backslash : backslash ≠ sep
  equals : equalsSign ≠ sep

theorem PlainSeparator.continues (plain : PlainSeparator sep) :
    ¬ (Environment.backslash = 0 ∨ Environment.backslash = sep) := by
  rintro (nul | same)
  · exact absurd nul (by decide)
  · exact plain.backslash same

theorem readValue_escaped (plain : PlainSeparator sep) (rest : List UInt8) (nulFree : 0 ∉ bytes) :
    readValue sep (escape sep bytes ++ sep :: rest) = some (bytes, sep :: rest) := by
  induction bytes with
  | nil => exact readValue_stop (.inr rfl)
  | cons byte bytes induction =>
    rw [List.mem_cons, not_or] at nulFree
    have notNul : byte ≠ 0 := fun nul => nulFree.1 nul.symm
    rw [escape, List.flatMap_cons, ← escape]
    cases needed : needsEscape sep byte with
    | true =>
      simp only [escapeByte, needed, cond_true, List.cons_append, List.nil_append]
      rw [readValue_escape plain.continues notNul, induction nulFree.2]
      rfl
    | false =>
      simp only [needsEscape, Bool.or_eq_false_iff, decide_eq_false_iff_not] at needed
      simp only [escapeByte, needsEscape, needed, decide_false, Bool.or_self, cond_false,
        List.cons_append, List.nil_append]
      rw [readValue_plain (not_or.mpr ⟨notNul, needed.1⟩) needed.2, induction nulFree.2]
      rfl

-- The first byte of an escaped value is neither a NUL nor the separator.
theorem escape_head (plain : PlainSeparator sep) (nulFree : 0 ∉ bytes) (nonempty : bytes ≠ []) :
    ∃ next tail, escape sep bytes = next :: tail ∧ next ≠ 0 ∧ next ≠ sep := by
  cases bytes with
  | nil => exact absurd rfl nonempty
  | cons byte bytes =>
    rw [List.mem_cons, not_or] at nulFree
    cases needed : needsEscape sep byte with
    | true =>
      refine ⟨backslash, byte :: escape sep bytes, ?_, by decide, plain.backslash⟩
      simp [escapeByte, needed, escape]
    | false =>
      have plainByte := needed
      simp only [needsEscape, Bool.or_eq_false_iff, decide_eq_false_iff_not] at plainByte
      refine ⟨byte, escape sep bytes, ?_, fun nul => nulFree.1 nul.symm, plainByte.1⟩
      simp [escapeByte, needed, escape]

theorem ExportableKey.isNameByte (exportable : ExportableKey sep key)
    (member : byte ∈ key.bytes) : isNameByte sep byte = true := by
  have notEquals : byte ≠ equalsSign := by
    rintro rfl
    exact exportable.equals member
  have notNul : byte ≠ 0 := by
    rintro rfl
    exact key.nulFree member
  have notSeparator : byte ≠ sep := by
    rintro rfl
    exact exportable.separator member
  simp [Environment.isNameByte, notEquals, notNul, notSeparator]

theorem readEntry_exportLine (plain : PlainSeparator sep)
    (exportable : Exportable sep entry) (rest : List UInt8) :
    readEntry sep (exportLine sep entry ++ rest) = some (.insert entry.key entry.data, rest) := by
  have keyExportable := exportable.key
  have nameBytes : ∀ byte ∈ entry.key.bytes, isNameByte sep byte = true :=
    fun _ member => keyExportable.isNameByte member
  have stops : isNameByte sep equalsSign = false := by
    simp [isNameByte]
  obtain ⟨next, tail, escaped, notNul, notSeparator⟩ :=
    escape_head plain entry.data.nulFree exportable.data
  have value := readValue_escaped plain rest entry.data.nulFree
  have shape : exportLine sep entry ++ rest =
      entry.key.bytes ++ equalsSign :: (escape sep entry.data.bytes ++ sep :: rest) := by
    simp [exportLine]
  have taken : (exportLine sep entry ++ rest).takeWhile (isNameByte sep) = entry.key.bytes := by
    rw [shape, List.takeWhile_append_of_pos nameBytes]
    simp [stops]
  have dropped : (exportLine sep entry ++ rest).dropWhile (isNameByte sep) =
      equalsSign :: (escape sep entry.data.bytes ++ sep :: rest) := by
    rw [shape, List.dropWhile_append_of_pos nameBytes]
    simp [stops]
  cases keyBytes : entry.key.bytes with
  | nil => exact absurd keyBytes keyExportable.nonempty
  | cons first bytes =>
    have start := keyExportable.start first (by rw [keyBytes]; rfl)
    have unblanked : (exportLine sep entry ++ rest).dropWhile isblank =
        first :: (bytes ++ equalsSign :: (escape sep entry.data.bytes ++ sep :: rest)) := by
      rw [shape, keyBytes]
      simp [start.1]
    have whole : first :: (bytes ++ equalsSign :: (escape sep entry.data.bytes ++ sep :: rest)) =
        exportLine sep entry ++ rest := by
      rw [shape, keyBytes]
      rfl
    rw [readEntry, unblanked]
    simp only [if_neg start.2]
    rw [whole, dropped, taken]
    simp only [readAfterName.eq_def, show equalsSign ≠ 0 by decide, if_false, escaped,
      List.cons_append, notNul, notSeparator, plain.equals, or_self]
    rw [← List.cons_append, ← escaped, value]
    simp

/-! ## Filling a table -/

def HSearchData.TombstoneFree (htab : HSearchData) : Prop :=
  ∀ index, 1 ≤ index → index ≤ htab.size.toNat → (htab.table index).used ≠ -1

theorem HSearchData.Invariant.hasRoom {htab : HSearchData} (invariant : htab.Invariant)
    (tombstoneFree : htab.TombstoneFree) (notFull : htab.filled ≠ htab.size) (key : CString) :
    htab.HasRoom key := by
  by_contra noRoom
  rw [HasRoom, not_or] at noRoom
  -- Every slot is live, so the counter has reached the size.
  have allLive : liveIndices (probing htab.size invariant.validSize) htab.cells =
      Finset.Icc 1 htab.size.toNat := by
    apply Finset.filter_eq_self.mpr
    intro index member
    obtain ⟨lower, upper⟩ := Finset.mem_Icc.mp member
    rcases invariant.sound index lower upper with unused | tombstone | ⟨stored, value, holds⟩
    · exact absurd ⟨index, lower, upper, unused⟩ noRoom.1
    · exact absurd tombstone (tombstoneFree index lower upper)
    · have cell : htab.cells index = .live stored value :=
        holds.cell invariant.validSize.large
      rw [cell]
      rfl
  have count := invariant.filled
  rw [allLive, Nat.card_Icc] at count
  exact notFull (UInt32.toNat_inj.mp count)

structure Fills (htab : HSearchData) (contents : Contents) : Prop where
  represents : Represents htab contents
  tombstoneFree : htab.TombstoneFree

theorem createdTable_tombstoneFree (tombstoneFree : htab.TombstoneFree) :
    (createdTable allocation key value htab idx hval).TombstoneFree := by
  intro index lower upper
  by_cases written : index = (createTarget htab idx hval).toNat
  · subst written
    simp only [createdTable, HSearchData.withFilled, HSearchData.setSlot, Function.update_self,
      createdSlot]
    omega
  · simp only [createdTable, HSearchData.withFilled, HSearchData.setSlot, ne_eq, written,
      not_false_eq_true, Function.update_of_ne]
    exact tombstoneFree index lower upper

theorem Fills.enter (hooks : Hooks) (accepting : hooks.Accepting) (fills : Fills htab contents)
    (unset : contents key = none) (value : CString) (flag : Int)
    (room : htab.filled.toNat < htab.size.toNat) :
    ∃ result next, hsearchR hooks .succeeds ⟨key, some value⟩ .enter htab flag =
        .ok (result, next) ∧
      Fills next (Function.update contents key (some value)) ∧
      next.size = htab.size ∧ next.filled.toNat = htab.filled.toNat + 1 := by
  have notFull : htab.filled ≠ htab.size := by
    intro full
    rw [full] at room
    exact Nat.lt_irrefl _ room
  have absent := fills.represents.absent_iff.mpr unset
  obtain ⟨idx, stops, searched⟩ := fills.represents.invariant.enter_absent hooks .succeeds flag
    value absent
  obtain ⟨next, same, outcome⟩ := accepting.createEntry key value htab flag idx
    (hashValue htab.size key) notFull
  have represents := fills.represents.createdTable value unset notFull
    (fills.represents.invariant.hasRoom fills.tombstoneFree notFull key) stops
  refine ⟨_, next, by rw [searched, outcome], ⟨represents.of_same same, ?_⟩, same.size, ?_⟩
  · intro index lower upper
    rw [(same.slots index).used]
    rw [same.size] at upper
    exact createdTable_tombstoneFree fills.tombstoneFree index lower upper
  · have sizeLt := htab.size.toNat_lt
    rw [same.filled]
    change (htab.filled + 1).toNat = _
    rw [UInt32.toNat_add]
    exact Nat.mod_eq_of_lt (by change htab.filled.toNat + 1 < 2 ^ 32; omega)

theorem emptyTable_fills (valid : ValidSize size) : Fills (emptyTable size) fun _ => none where
  represents := emptyTable_represents valid
  tombstoneFree _ _ _ := by
    change (0 : Int) ≠ -1
    decide

def storeEntry (contents : Contents) (entry : ExportEntry) : Contents :=
  Function.update contents entry.key (some entry.data)

theorem storeEntry_unset (distinct : entry.key ∉ entries.map ExportEntry.key)
    (unset : ∀ other ∈ entry :: entries, contents other.key = none) :
    ∀ other ∈ entries, storeEntry contents entry other.key = none := by
  intro other member
  have different : other.key ≠ entry.key := by
    intro same
    exact distinct (same ▸ List.mem_map_of_mem member)
  rw [storeEntry, Function.update_of_ne different]
  exact unset other (List.mem_cons_of_mem _ member)

theorem foldl_storeEntry_iff (entries : List ExportEntry)
    (distinct : (entries.map ExportEntry.key).Nodup) (contents : Contents)
    (unset : ∀ entry ∈ entries, contents entry.key = none) (key value : CString) :
    entries.foldl storeEntry contents key = some value ↔
      ⟨key, value⟩ ∈ entries ∨ contents key = some value := by
  induction entries generalizing contents with
  | nil => simp
  | cons entry entries induction =>
    rw [List.map_cons, List.nodup_cons] at distinct
    have others : ∀ other ∈ entries, other.key ≠ entry.key := by
      intro other member same
      exact distinct.1 (same ▸ List.mem_map_of_mem member)
    rw [List.foldl_cons, induction distinct.2]
    · by_cases same : key = entry.key
      · subst same
        have notLater : ∀ data, ⟨entry.key, data⟩ ∉ entries :=
          fun data member => others _ member rfl
        have before := unset entry List.mem_cons_self
        simp only [storeEntry, Function.update_self, notLater, false_or, Option.some.injEq,
          List.mem_cons, before, reduceCtorEq, or_false]
        constructor
        · rintro rfl
          exact rfl
        · intro equal
          rw [← equal]
      · have different : (⟨key, value⟩ : ExportEntry) ≠ entry := by
          rintro rfl
          exact same rfl
        simp [storeEntry, same, different]
    · exact storeEntry_unset distinct.1 unset

def enterAll (hooks : Hooks) (flag : Int) : List ExportEntry → HSearchData → Exec HSearchData
  | [], htab => .ok htab
  | entry :: entries, htab => do
      let (_, htab) ← hsearchR hooks .succeeds ⟨entry.key, some entry.data⟩ .enter htab flag
      enterAll hooks flag entries htab

theorem enterAll_returns (hooks : Hooks) (flag : Int) (entries : List ExportEntry)
    (searchable : htab.Searchable) :
    ∃ final, enterAll hooks flag entries htab = .ok final ∧ final.Searchable ∧
      final.size = htab.size := by
  induction entries generalizing htab with
  | nil => exact ⟨htab, rfl, searchable, rfl⟩
  | cons entry entries induction =>
    obtain ⟨result, next, entered, kept, size⟩ :=
      searchable.enter_returns hooks entry.key entry.data flag
    obtain ⟨final, rest, finalSearchable, finalSize⟩ := induction kept
    refine ⟨final, ?_, finalSearchable, finalSize.trans size⟩
    rw [enterAll, entered]
    exact rest

theorem Fills.enterAll (hooks : Hooks) (accepting : hooks.Accepting) (flag : Int)
    (entries : List ExportEntry) (distinct : (entries.map ExportEntry.key).Nodup)
    (fills : Fills htab contents)
    (unset : ∀ entry ∈ entries, contents entry.key = none)
    (room : htab.filled.toNat + entries.length ≤ htab.size.toNat) :
    ∃ final, Environment.enterAll hooks flag entries htab = .ok final ∧
      Represents final (entries.foldl storeEntry contents) := by
  induction entries generalizing htab contents with
  | nil => exact ⟨htab, rfl, fills.represents⟩
  | cons entry entries induction =>
    rw [List.map_cons, List.nodup_cons] at distinct
    rw [List.length_cons] at room
    obtain ⟨result, next, entered, nextFills, size, filled⟩ := fills.enter hooks accepting
      (unset entry List.mem_cons_self) entry.data flag (by omega)
    obtain ⟨final, rest, represents⟩ := induction distinct.2 nextFills
      (storeEntry_unset distinct.1 unset) (by rw [filled, size]; omega)
    refine ⟨final, ?_, represents⟩
    rw [Environment.enterAll, entered]
    exact rest

theorem enterAll_emptyTable (hooks : Hooks) (accepting : hooks.Accepting) {size : UInt32}
    (valid : ValidSize size) {entries : List ExportEntry}
    (distinct : (entries.map ExportEntry.key).Nodup) (room : entries.length ≤ size.toNat) :
    ∃ final, enterAll hooks 0 entries (emptyTable size) = .ok final ∧ final.Searchable ∧
      ∀ key value, final.Stores key value ↔ ⟨key, value⟩ ∈ entries := by
  obtain ⟨final, entered, represents⟩ := (emptyTable_fills valid).enterAll hooks accepting 0
    entries distinct (fun _ _ => rfl) (by
      change 0 + entries.length ≤ size.toNat
      omega)
  refine ⟨final, entered, represents.invariant.toSearchable, ?_⟩
  intro key value
  rw [represents.stores, foldl_storeEntry_iff entries distinct _ (fun _ _ => rfl)]
  simp

theorem exportLine_head (sep : UInt8) (nonempty : entry.key.bytes ≠ []) (rest : List UInt8) :
    ∃ byte tail, exportLine sep entry ++ rest = byte :: tail ∧ byte ≠ 0 := by
  cases keyBytes : entry.key.bytes with
  | nil => exact absurd keyBytes nonempty
  | cons first bytes =>
    refine ⟨first, bytes ++ [equalsSign] ++ escape sep entry.data.bytes ++ [sep] ++ rest, ?_, ?_⟩
    · simp [exportLine, keyBytes]
    · rintro rfl
      exact entry.key.nulFree (by simp [keyBytes])

theorem ExportableKey.isEmptyName (exportable : ExportableKey sep key) (value : CString) :
    (ImportEvent.insert key value).isEmptyName = false := by
  cases keyBytes : key with
  | mk bytes nulFree =>
    cases bytes with
    | nil => exact absurd (congrArg CString.bytes keyBytes) exportable.nonempty
    | cons first bytes => rfl

/-- On an exported text the import loop enters the entries one after another. -/
theorem importLoop_exportText (hooks : Hooks) {allocations : Nat → Allocation}
    (allocated : ∀ offset, allocations offset = .succeeds) {sep : UInt8}
    (plain : PlainSeparator sep) (flag : Int) (padding : List UInt8)
    (entries : List ExportEntry) (nonempty : entries ≠ [])
    (exportable : ∀ entry ∈ entries, Exportable sep entry) {fuel : Nat}
    (enough : entries.length ≤ fuel) (before : List UInt8) (htab : HSearchData) :
    importLoop hooks allocations sep flag fuel
        (before ++ (exportText sep entries ++ 0 :: padding)) before.length ⟨htab, []⟩ =
      (enterAll hooks flag entries htab).map fun final => .finished ⟨final, []⟩ := by
  induction entries generalizing fuel before htab with
  | nil => exact absurd rfl nonempty
  | cons entry entries induction =>
    rw [List.length_cons] at enough
    obtain ⟨fuel, rfl⟩ : ∃ less, fuel = less + 1 := ⟨fuel - 1, by omega⟩
    have line := exportable entry List.mem_cons_self
    have read := readEntry_exportLine plain line (exportText sep entries ++ 0 :: padding)
    have shape : exportText sep (entry :: entries) ++ 0 :: padding =
        exportLine sep entry ++ (exportText sep entries ++ 0 :: padding) := by
      simp [exportText]
    rw [← shape] at read
    obtain ⟨behind, turn⟩ := importLoop_turn hooks allocations sep flag fuel before ⟨htab, []⟩ read
    rw [turn, line.key.isEmptyName, allocated, enterAll]
    simp only [cond_false, applyEvent, dropVarFromSet, List.isEmpty_nil, if_true, cond_true]
    cases hsearchR hooks .succeeds ⟨entry.key, some entry.data⟩ .enter htab flag with
    | error fault => rfl
    | ok result =>
      change continueBefore _ _ _ = (enterAll hooks flag entries result.2).map _
      cases entries with
      | nil => simp [continueBefore, exportText, enterAll, Except.map]
      | cons second others =>
        have secondLine := exportable second (by simp)
        obtain ⟨byte, tail, head, notNul⟩ := exportLine_head sep secondLine.key.nonempty
          (exportText sep others ++ 0 :: padding)
        have restShape : exportText sep (second :: others) ++ 0 :: padding = byte :: tail := by
          rw [← head]
          simp [exportText]
        have looped := @induction (by simp)
          (fun other member => exportable other (List.mem_cons_of_mem _ member)) fuel
          (by omega) behind result.2
        rw [restShape] at looped ⊢
        rw [continueBefore, if_pos notNul]
        exact looped

/-! ## The entries of a table -/

def slotEntry (slot : Slot) : Option ExportEntry :=
  match slot.cell with
  | .live key data => some ⟨key, data⟩
  | _ => none

theorem slotEntry_eq_some_iff :
    slotEntry slot = some ⟨key, value⟩ ↔ slot.cell = .live key value := by
  rw [slotEntry]
  split <;> simp_all

def HSearchData.entries (htab : HSearchData) : List ExportEntry := htab.slots.filterMap slotEntry

theorem exportSlot_sound (large : 3 ≤ size.toNat)
    (sound : slot.Sound size) : exportSlot 0 [] slot = .ok (slotEntry slot) := by
  rcases sound with unused | tombstone | ⟨key, value, holds⟩
  · simp [exportSlot, slotEntry, Slot.cell, unused]
  · simp [exportSlot, slotEntry, Slot.cell, tombstone]
  · have visible : hasFlag 0 H_HIDE_DOT = false := by decide
    simp [exportSlot, slotEntry, holds.cell large, holds.used_pos large, matchEntry, visible,
      holds.key, holds.data, deref, bind, Except.bind, pure, Except.pure]

theorem exportedEntries_sound (large : 3 ≤ size.toNat) (sound : ∀ slot ∈ slots, slot.Sound size) :
    exportedEntries 0 [] slots = .ok (slots.filterMap slotEntry) := by
  induction slots with
  | nil => rfl
  | cons slot slots induction =>
    rw [exportedEntries, exportSlot_sound large (sound slot List.mem_cons_self),
      induction fun other member => sound other (List.mem_cons_of_mem _ member)]
    cases selected : slotEntry slot <;> simp [Except.map, selected]

theorem sum_slotBytes_sound {size : UInt32} (large : 3 ≤ size.toNat) {slots : List Slot}
    (sound : ∀ slot ∈ slots, slot.Sound size) :
    (slots.map slotBytes).sum = plainLength (slots.filterMap slotEntry) := by
  induction slots with
  | nil => rfl
  | cons slot slots induction =>
    rw [List.map_cons, List.sum_cons,
      induction fun other member => sound other (List.mem_cons_of_mem _ member)]
    rcases sound slot List.mem_cons_self with unused | tombstone | ⟨key, value, holds⟩
    · simp [slotBytes, slotEntry, Slot.cell, unused]
    · simp [slotBytes, slotEntry, Slot.cell, tombstone]
    · have selected : slotEntry slot = some ⟨key, value⟩ :=
        slotEntry_eq_some_iff.mpr (holds.cell large)
      rw [List.filterMap_cons_some selected]
      simp only [slotBytes, holds.used_pos large, if_true, holds.key, holds.data, pointerBytes,
        plainLength, List.map_cons, List.sum_cons]
      omega

namespace HSearchData.Searchable

variable {htab : HSearchData} (searchable : htab.Searchable)
include searchable

theorem slots_sound : ∀ slot ∈ htab.slots, slot.Sound htab.size := by
  intro slot member
  obtain ⟨index, inRange, rfl⟩ := List.mem_map.mp member
  exact searchable.sound (index + 1) (by omega) (List.mem_range.mp inRange)

theorem exportedEntries_eq : exportedEntries 0 [] htab.slots = .ok htab.entries :=
  exportedEntries_sound searchable.validSize.large searchable.slots_sound

omit searchable in
theorem mem_entries_iff (key value : CString) :
    ⟨key, value⟩ ∈ htab.entries ↔ htab.Stores key value := by
  simp only [entries, slots, List.mem_filterMap, List.mem_map, List.mem_range]
  constructor
  · rintro ⟨slot, ⟨index, inside, rfl⟩, selected⟩
    exact ⟨index + 1, by omega, inside, slotEntry_eq_some_iff.mp selected⟩
  · rintro ⟨index, lower, upper, live⟩
    refine ⟨htab.table index, ⟨index - 1, by omega, ?_⟩, slotEntry_eq_some_iff.mpr live⟩
    rw [Nat.sub_add_cancel lower]

-- Two entries with the same key would be two live cells with that key.
theorem entries_distinct : (htab.entries.map ExportEntry.key).Nodup := by
  apply List.pairwise_map.mpr
  apply List.pairwise_filterMap.mpr
  apply List.pairwise_map.mpr
  apply List.nodup_range.imp_of_mem
  intro left right leftMember rightMember different first firstSelected second secondSelected same
  apply different
  have leftLive := slotEntry_eq_some_iff.mp firstSelected
  have rightLive := slotEntry_eq_some_iff.mp secondSelected
  rw [← same] at rightLive
  have sameIndex := searchable.valid.unique
    (Finset.mem_Icc.mpr ⟨Nat.le_add_left 1 left, List.mem_range.mp leftMember⟩)
    (Finset.mem_Icc.mpr ⟨Nat.le_add_left 1 right, List.mem_range.mp rightMember⟩)
    leftLive rightLive
  omega

omit searchable in
theorem length_entries_le : htab.entries.length ≤ htab.size.toNat := by
  have bound := List.length_filterMap_le slotEntry htab.slots
  rw [slots, List.length_map, List.length_range] at bound
  exact bound

theorem slotBytes_sum : (htab.slots.map slotBytes).sum = plainLength htab.entries :=
  sum_slotBytes_sound searchable.validSize.large searchable.slots_sound

theorem entries_perm {entries : List ExportEntry} (distinct : (entries.map ExportEntry.key).Nodup)
    (stores : ∀ key value, htab.Stores key value ↔ ⟨key, value⟩ ∈ entries) :
    htab.entries.Perm entries := by
  apply (List.perm_ext_iff_of_nodup searchable.entries_distinct.of_map distinct.of_map).mpr
  intro entry
  exact (mem_entries_iff entry.key entry.data).trans (stores entry.key entry.data)

theorem length_entries_le_of_lookup (otherSearchable : other.Searchable)
    (found : ∀ key, lookup hooks other key = lookup hooks htab key) :
    htab.entries.length ≤ other.size.toNat := by
  have inside : htab.entries ⊆ other.entries := by
    intro entry member
    have stored := (mem_entries_iff entry.key entry.data).mp member
    have answer := (found entry.key).trans (searchable.lookup_stored hooks stored)
    by_cases kept : ∃ value, other.Stores entry.key value
    · obtain ⟨value, kept⟩ := kept
      have sameValue : value = entry.data := by
        have same := (otherSearchable.lookup_stored hooks kept).symm.trans answer
        simpa using same
      exact (mem_entries_iff entry.key entry.data).mpr (sameValue ▸ kept)
    · have missing := otherSearchable.lookup_absent hooks (not_exists.mp kept)
      cases missing.symm.trans answer
  calc htab.entries.length ≤ other.entries.length :=
        (List.subperm_of_subset searchable.entries_distinct.of_map inside).length_le
    _ ≤ other.size.toNat := length_entries_le

end HSearchData.Searchable

theorem hexportR_written (searchable : htab.Searchable)
    (exported : hexportR htab sep 0 available size [] = .ok (some buffer)) :
    ∃ entries padding, entries.Perm htab.entries ∧
      buffer.contents = exportText sep entries ++ 0 :: List.replicate padding 0 ∧
      buffer.contents.length = buffer.size := by
  have perm := (Library.qsort_perm cmpkey htab.entries.toArray).toList
  rw [hexportR_selected searchable.exportedEntries_eq] at exported
  split at exported
  · cases exported
  · cases available with
    | false => cases exported
    | true =>
      generalize (if size ≠ 0 then size else
        UInt32.ofNat (measuredLength sep htab.entries) + 1).toNat = bytes at exported
      rw [cond_true, ExportBuffer.putString_eq ⟨[], bytes⟩ (Nat.zero_le bytes)] at exported
      split at exported
      · rename_i fits
        cases exported
        refine ⟨_, bytes - (exportText sep
          (Library.qsort cmpkey htab.entries.toArray).toList ++ [0]).length, perm, ?_, ?_⟩
        · simp only [ExportBuffer.contents, List.nil_append, List.append_assoc,
            List.singleton_append]
        · rw [ExportBuffer.contents, List.length_append, List.length_replicate]
          rw [List.length_nil, Nat.zero_add] at fits
          change _ ≤ bytes at fits
          simp only [List.nil_append]
          omega
      · cases exported

/-- The number of slots of the table that an import creates for a text of the
given size. -/
def importCapacity (size : Nat) : Nat :=
  match hcreateR (UInt32.ofNat (importEntries size)) true with
  | .ok (some htab) => htab.size.toNat
  | _ => 0

theorem importTable_fresh (previous : Option HSearchData) (size : Nat) :
    ∃ tableSize, importTable previous size 0 true = .ok (some (emptyTable tableSize)) ∧
      ValidSize tableSize ∧ tableSize.toNat = importCapacity size := by
  have bounds := importEntries_bounds size
  obtain ⟨tableSize, created, valid, _⟩ := hcreateR_importRange bounds.1 bounds.2
  have cleared : hasFlag 0 H_NOCLEAR = false := by decide
  refine ⟨tableSize, ?_, valid, ?_⟩
  · simp only [importTable, cleared, cond_false, created]
  · rw [importCapacity, created]
    rfl

/-! ## The round trip -/

section

variable (hooks : Hooks) (allocations : Nat → Allocation)

-- A text without entries starts with a NUL, which is read as the deletion of an empty name.
theorem importLoop_empty (valid : ValidSize tableSize) :
    importLoop hooks allocations sep 0 (fuel + 1) (0 :: List.replicate padding 0) 0
      ⟨emptyTable tableSize, []⟩ = .ok (.finished ⟨emptyTable tableSize, []⟩) := by
  have read : readEntry sep (0 :: List.replicate padding 0) =
      some (.delete (.ofBytes []), List.replicate padding 0) := by
    simp [readEntry, readAfterName, isblank, isNameByte, show (0 : UInt8) ≠ hashSign by decide]
  obtain ⟨behind, turn⟩ := importLoop_turn hooks allocations sep 0 fuel []
    ⟨emptyTable tableSize, []⟩ read
  have deleted : hdeleteR hooks (.ofBytes []) (emptyTable tableSize) 0 =
      .ok (0, emptyTable tableSize) := by
    have searched := (emptyTable_invariant valid).toSearchable.find_absent hooks .succeeds 0 none
      (emptyTable_absent tableSize (.ofBytes []))
    simp [hdeleteR, searched, HSearchReturn.failure]
  have stops : ∀ loop state, continueBefore (List.replicate padding 0) loop state =
      .ok (.finished state) := by
    intro loop state
    cases padding <;> simp [continueBefore, List.replicate_succ]
  rw [List.nil_append, List.length_nil] at turn
  simp only [turn, ImportEvent.isEmptyName, cond_false, applyEvent, dropVarFromSet,
    List.isEmpty_nil, if_true, cond_true, deleted, Except.map, bind, Except.bind, stops]

theorem himportR_exportText (allocated : ∀ offset, allocations offset = .succeeds)
    (plain : PlainSeparator sep) (previous : Option HSearchData) (padding : Nat)
    (exportable : ∀ entry ∈ entries, Exportable sep entry) :
    ∃ tableSize, ValidSize tableSize ∧ tableSize.toNat =
        importCapacity (exportText sep entries ++ 0 :: List.replicate padding 0).length ∧
      himportR hooks true true allocations previous
          (exportText sep entries ++ 0 :: List.replicate padding 0) sep 0 [] =
        (enterAll hooks 0 entries (emptyTable tableSize)).map fun final => ⟨1, some final⟩ := by
  set text := exportText sep entries ++ 0 :: List.replicate padding 0 with shape
  obtain ⟨tableSize, created, valid, capacity⟩ := importTable_fresh previous text.length
  refine ⟨tableSize, valid, capacity, ?_⟩
  have looped : importLoop hooks allocations sep 0 (text.length + 1) text 0
      ⟨emptyTable tableSize, []⟩ =
      (enterAll hooks 0 entries (emptyTable tableSize)).map fun final =>
        .finished ⟨final, []⟩ := by
    by_cases empty : entries = []
    · subst empty
      exact importLoop_empty hooks allocations valid
    · have enough : entries.length ≤ text.length + 1 := by
        have plainBound := twice_length_le_plainLength entries
        have length := length_exportText sep entries
        rw [List.length_append]
        omega
      exact importLoop_exportText hooks allocated plain 0 (List.replicate padding 0) entries empty
        exportable enough [] (emptyTable tableSize)
  simp only [himportR, cond_true, created, bind, Except.bind, List.map_nil, looped]
  cases enterAll hooks 0 entries (emptyTable tableSize) <;> rfl

variable (allocated : ∀ offset, allocations offset = .succeeds) (searchable : htab.Searchable)
  (separator : sep = 0 ∨ sep = 10)
  (exportable : ∀ key value, htab.Stores key value → Exportable sep ⟨key, value⟩)
  (exported : hexportR htab sep 0 available size [] = .ok (some buffer))

include allocated searchable separator exportable exported

theorem himportR_exported (previous : Option HSearchData) :
    ∃ entries tableSize, entries.Perm htab.entries ∧ ValidSize tableSize ∧
      tableSize.toNat = importCapacity buffer.size ∧
      himportR hooks true true allocations previous buffer.contents sep 0 [] =
        (enterAll hooks 0 entries (emptyTable tableSize)).map fun final => ⟨1, some final⟩ := by
  obtain ⟨entries, padding, perm, contents, length⟩ := hexportR_written searchable exported
  have plain : PlainSeparator sep := by
    rcases separator with rfl | rfl
    · exact ⟨by decide, by decide⟩
    · exact ⟨by decide, by decide⟩
  have lines : ∀ entry ∈ entries, Exportable sep entry := fun entry member =>
    exportable _ _ ((HSearchData.Searchable.mem_entries_iff _ _).mp (perm.mem_iff.mp member))
  obtain ⟨tableSize, valid, capacity, imports⟩ :=
    himportR_exportText hooks allocations allocated plain previous padding lines
  rw [← contents] at capacity imports
  rw [length] at capacity
  exact ⟨entries, tableSize, perm, valid, capacity, imports⟩

theorem length_entries_le_importCapacity
    (imports : himportR hooks true true allocations previous buffer.contents sep 0 [] =
      .ok ⟨1, some imported⟩) (same : ∀ key, lookup hooks imported key = lookup hooks htab key) :
    htab.entries.length ≤ importCapacity buffer.size := by
  obtain ⟨entries, tableSize, perm, valid, capacity, enters⟩ :=
    himportR_exported hooks allocations allocated searchable separator exportable exported previous
  obtain ⟨final, entered, finalSearchable, finalSize⟩ :=
    enterAll_returns hooks 0 entries (emptyTable_invariant valid).toSearchable
  rw [imports, entered] at enters
  cases enters
  have bound := searchable.length_entries_le_of_lookup finalSearchable same
  rw [finalSize] at bound
  rw [← capacity]
  exact bound

end

theorem exists_exported {tableSize : UInt32} (valid : ValidSize tableSize)
    {entries : List ExportEntry} (distinct : (entries.map ExportEntry.key).Nodup)
    (room : entries.length ≤ tableSize.toNat) (small : plainLength entries ≤ mallocLength)
    {sep : UInt8} (notNul : sep ≠ 0) :
    ∃ htab buffer, enterAll permissiveHooks 0 entries (emptyTable tableSize) = .ok htab ∧
      htab.Searchable ∧ htab.entries.Perm entries ∧
      hexportR htab sep 0 true 0 [] = .ok (some buffer) ∧
      buffer.size = measuredLength sep entries + 1 := by
  obtain ⟨htab, entered, searchable, stores⟩ := enterAll_emptyTable permissiveHooks
    permissiveHooks_accepting valid distinct room
  have perm := searchable.entries_perm distinct stores
  have arena : htab.InArena := by
    rw [HSearchData.InArena, searchable.slotBytes_sum, plainLength_perm perm]
    exact small
  have sorted := ((Library.qsort_perm cmpkey htab.entries.toArray).toList).trans perm
  have exported := hexportR_eq arena sep true 0 searchable.exportedEntries_eq
  have measured : measuredLength sep htab.entries = measuredLength sep entries := by
    rw [measuredLength, measuredLength, plainLength_perm perm, perm.length_eq,
      escapeCount_perm perm]
  rw [if_neg (by simp), cond_true, measured, ExportBuffer.putString_eq _ (Nat.zero_le _),
    if_pos] at exported
  · exact ⟨htab, _, entered, searchable, perm, exported, rfl⟩
  · rw [List.length_nil, List.length_append, length_exportText, plainLength_perm sorted,
      escapeCount_perm sorted, measuredLength, if_neg notNul]
    simp only [ne_eq, not_true_eq_false, if_false, List.length_singleton]
    omega

def isPlainEntry (entry : ExportEntry) : Bool :=
  entry.key.bytes ≠ [] && entry.key.bytes.all (fun byte => 97 ≤ byte && byte ≤ 122) &&
    entry.data.bytes ≠ []

theorem exportable_of_isPlainEntry (plain : isPlainEntry entry = true) : Exportable 10 entry := by
  simp only [isPlainEntry, ne_eq, Bool.and_eq_true, decide_eq_true_eq, List.all_eq_true] at plain
  obtain ⟨⟨nonempty, letters⟩, data⟩ := plain
  refine ⟨⟨nonempty, ?_, ?_, ?_⟩, data⟩
  · intro member
    exact absurd (letters _ member).1 (by decide)
  · intro member
    exact absurd (letters _ member).1 (by decide)
  · intro byte head
    have range := letters byte (List.mem_of_mem_head? head)
    have lower : 97 ≤ byte.toNat := UInt8.le_iff_toNat_le.mp range.1
    constructor
    · have notSpace : byte ≠ 32 := by
        rintro rfl
        exact absurd lower (by decide)
      have notTab : byte ≠ 9 := by
        rintro rfl
        exact absurd lower (by decide)
      simp [isblank, notSpace, notTab]
    · rintro rfl
      exact absurd lower (by decide)

theorem exportable_of_perm {htab : HSearchData}
    (perm : htab.entries.Perm entries) (plain : entries.all isPlainEntry = true) :
    ∀ key value, htab.Stores key value → Exportable 10 ⟨key, value⟩ := by
  intro key value stored
  apply exportable_of_isPlainEntry
  apply List.all_eq_true.mp plain
  exact perm.mem_iff.mp ((HSearchData.Searchable.mem_entries_iff key value).mpr stored)

def escapedEntries : List ExportEntry := [⟨letter 97, .ofBytes [backslash, 10]⟩]

/-- An exported environment is read back to the same map exactly when the table
that the import creates for that many bytes has a slot for every entry. -/
theorem import_restores_export_iff (hooks : Hooks) (accepting : hooks.Accepting)
    {allocations : Nat → Allocation} (allocated : ∀ offset, allocations offset = .succeeds)
    {htab : HSearchData} (searchable : htab.Searchable) {sep : UInt8}
    (separator : sep = 0 ∨ sep = 10)
    (exportable : ∀ key value, htab.Stores key value → Exportable sep ⟨key, value⟩)
    {available : Bool} {size : UInt32} {buffer : ExportBuffer}
    (exported : hexportR htab sep 0 available size [] = .ok (some buffer))
    (previous : Option HSearchData) :
    (∃ imported, himportR hooks true true allocations previous buffer.contents sep 0 [] =
        .ok ⟨1, some imported⟩ ∧
      ∀ key, lookup hooks imported key = lookup hooks htab key) ↔
      htab.entries.length ≤ importCapacity buffer.size := by
  constructor
  · rintro ⟨imported, imports, same⟩
    exact length_entries_le_importCapacity hooks allocations allocated searchable separator
      exportable exported imports same
  · intro room
    obtain ⟨entries, tableSize, perm, valid, capacity, enters⟩ :=
      himportR_exported hooks allocations allocated searchable separator exportable exported
        previous
    have distinct : (entries.map ExportEntry.key).Nodup :=
      (perm.map ExportEntry.key).nodup_iff.mpr searchable.entries_distinct
    have fits : entries.length ≤ tableSize.toNat := by
      rw [perm.length_eq, capacity]
      exact room
    obtain ⟨final, entered, finalSearchable, stores⟩ :=
      enterAll_emptyTable hooks accepting valid distinct fits
    refine ⟨final, by rw [enters, entered]; rfl, ?_⟩
    apply searchable.lookup_eq hooks finalSearchable
    intro key value
    rw [stores, perm.mem_iff, HSearchData.Searchable.mem_entries_iff]

theorem import_restores_escaped : ∃ htab buffer imported,
      enterAll permissiveHooks 0 escapedEntries (emptyTable 67) = .ok htab ∧
      hexportR htab 10 0 true 0 [] = .ok (some buffer) ∧
      himportR permissiveHooks true true (fun _ => .succeeds) none buffer.contents 10 0 [] =
        .ok ⟨1, some imported⟩ ∧
      ∀ key, lookup permissiveHooks imported key = lookup permissiveHooks htab key := by
  have bounds : 64 ≤ (64 : UInt32).toNat ∧ (64 : UInt32).toNat ≤ 512 := by decide
  obtain ⟨tableSize, created, valid, _⟩ := hcreateR_importRange bounds.1 bounds.2
  cases hcreateR_sixtyFour.symm.trans created
  obtain ⟨htab, buffer, entered, searchable, perm, exported, size⟩ :=
    @exists_exported 67 valid escapedEntries (by decide) (by decide) (by decide) 10 (by decide)
  have restored := import_restores_export_iff permissiveHooks permissiveHooks_accepting
    (fun _ => rfl) searchable (.inr rfl) (exportable_of_perm perm (by decide))
    exported none
  rw [size, perm.length_eq] at restored
  obtain ⟨imported, imports, same⟩ := restored.mpr (by decide +kernel)
  exact ⟨htab, buffer, imported, entered, exported, imports, same⟩

def shortName (index : Nat) : CString :=
  if index < 26 then
    letter (97 + index)
  else
    .ofBytes [UInt8.ofNat (97 + (index - 26) / 26), UInt8.ofNat (97 + (index - 26) % 26)]

def shortEntries : List ExportEntry :=
  (List.range 510).map fun index => ⟨shortName index, letter 120⟩

-- Read as a number with the digits `a` to `z`, the names count up.
def nameNumber (name : CString) : Nat :=
  name.bytes.foldl (fun number byte => 26 * number + (byte.toNat - 96)) 0

theorem shortEntries_distinct : (shortEntries.map ExportEntry.key).Nodup := by
  apply List.Nodup.of_map nameNumber
  have numbers : (shortEntries.map ExportEntry.key).map nameNumber = List.range' 1 510 := by
    decide +kernel
  rw [numbers]
  exact List.nodup_range'

/-- The environment of 510 entries in a table with 521 slots is 3545 bytes long,
and the import makes a table with 509 slots for it. -/
theorem import_drops_entries : hcreateR 512 true = .ok (some (emptyTable 521)) ∧
      ∃ htab buffer, enterAll permissiveHooks 0 shortEntries (emptyTable 521) = .ok htab ∧
        (∀ key value, htab.Stores key value → Exportable 10 ⟨key, value⟩) ∧
        hexportR htab 10 0 true 0 [] = .ok (some buffer) ∧
        ¬ ∃ imported, himportR permissiveHooks true true (fun _ => .succeeds) none
              buffer.contents 10 0 [] = .ok ⟨1, some imported⟩ ∧
            ∀ key, lookup permissiveHooks imported key = lookup permissiveHooks htab key := by
  have found : nextPrime (512 : UInt32).toNat (512 ||| 1) = .ok 521 := by rfl
  have creates : hcreateR 512 true = .ok (some (emptyTable 521)) := by
    rw [hcreateR, found]
    rfl
  obtain ⟨tableSize, created, valid, _⟩ := @hcreateR_importRange 512 (by decide) (by decide)
  cases creates.symm.trans created
  obtain ⟨htab, buffer, entered, searchable, perm, exported, size⟩ :=
    @exists_exported 521 valid shortEntries shortEntries_distinct (by decide +kernel)
      (by decide +kernel) 10 (by decide)
  have exportable := exportable_of_perm perm (by decide +kernel)
  refine ⟨creates, htab, buffer, entered, exportable, exported, ?_⟩
  rintro ⟨imported, imports, same⟩
  have room := length_entries_le_importCapacity permissiveHooks (fun _ => .succeeds)
    (fun _ => rfl) searchable (.inr rfl) exportable exported imports same
  rw [perm.length_eq, size] at room
  exact absurd room (by decide +kernel)

end UBootV210.Environment
