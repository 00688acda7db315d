import UBootV210.Environment.HashTableMap
import UBootV210.Environment.HashTableExportText

/-! # Whether an export stays inside its buffer

The second pass escapes backslashes for every separator, the first counts the
escapes only for a separator other than NUL. Its four bytes per entry leave two
to spare. -/

namespace UBootV210.Environment

/-- `CONFIG_SYS_MALLOC_LEN` of the board. -/
def mallocLength : Nat := 128 * 1024 + 2 ^ 20

def pointerBytes (pointer : Option CString) : Nat :=
  match pointer with
  | none => 0
  | some string => string.length + 1

def slotBytes (slot : Slot) : Nat :=
  if 0 < slot.used then pointerBytes slot.entry.key + pointerBytes slot.entry.data else 0

/-- The strings of the entries were copied by `strdup`, so they lie side by side
in the memory that `malloc` manages. -/
def HSearchData.InArena (htab : HSearchData) : Prop :=
  (htab.slots.map slotBytes).sum ≤ mallocLength

instance (htab : HSearchData) : Decidable htab.InArena :=
  inferInstanceAs (Decidable (_ ≤ _))

def backslashCount (entries : List ExportEntry) : Nat :=
  (entries.map fun entry => entry.data.bytes.count backslash).sum

def spareBytes (size : UInt32) (entries : List ExportEntry) : Nat :=
  if size = 0 then 0 else size.toNat - (plainLength entries + 2 * entries.length + 1)

/-- With separator NUL and a buffer that passes the size check, the backslashes
in the exported values fit into the bytes to spare. -/
def BackslashesFit (htab : HSearchData) (sep : UInt8) (flag : Int) (size : UInt32)
    (argv : List CString) : Prop :=
  ∀ entries, exportedEntries flag argv htab.slots = .ok entries → sep = 0 →
    (size ≠ 0 → plainLength entries + 2 * entries.length + 1 ≤ size.toNat) →
    backslashCount entries ≤ 2 * entries.length + spareBytes size entries

/-! ## Selecting entries -/

variable {flag : Int}

theorem matchString_error
    (failed : matchString flag str pat = .error fault) : fault = .nullPointer := by
  unfold matchString at failed
  cases str with
  | none => split at failed <;> cases failed <;> rfl
  | some string => split at failed <;> cases failed

variable {argv : List CString}

theorem matchFlagged_error {flagged : Bool}
    (failed : (bif flagged then matchString flag str pat else .ok false) = .error fault) :
    fault = .nullPointer := by
  cases flagged with
  | true => exact matchString_error failed
  | false => cases failed

theorem matchEntry_error
    (failed : matchEntry entry flag argv = .error fault) : fault = .nullPointer := by
  induction argv with
  | nil => cases failed
  | cons pat argv induction =>
    rw [matchEntry] at failed
    rcases Exec.bind_eq_error failed with keyFailed | ⟨keyMatches, failed⟩
    · exact matchFlagged_error keyFailed
    · split at failed
      · cases failed
      · rcases Exec.bind_eq_error failed with dataFailed | ⟨dataMatches, failed⟩
        · exact matchFlagged_error dataFailed
        · split at failed
          · cases failed
          · exact induction failed

theorem exportSlot_cases (flag : Int) (argv : List CString) (slot : Slot) :
    exportSlot flag argv slot = .error .nullPointer ∨ exportSlot flag argv slot = .ok none ∨
      ∃ entry : ExportEntry, exportSlot flag argv slot = .ok (some entry) ∧ 0 < slot.used ∧
        slot.entry.key = some entry.key ∧ slot.entry.data = some entry.data := by
  unfold exportSlot
  split
  · rename_i used
    cases matched : matchEntry slot.entry flag argv with
    | error fault =>
      cases matchEntry_error matched
      exact .inl rfl
    | ok found =>
      cases skipped : (!argv.isEmpty && !found) with
      | true =>
        right
        left
        simp only [skipped, bind, Except.bind, pure, Except.pure, if_true]
      | false =>
        cases keyEq : slot.entry.key with
        | none =>
          left
          cases hasFlag flag H_HIDE_DOT <;>
            simp [skipped, bind, Except.bind, deref]
        | some key =>
          cases dataEq : slot.entry.data with
          | none =>
            cases hasFlag flag H_HIDE_DOT <;> by_cases dot : key.bytes.head? = some 46 <;>
              simp [skipped, bind, Except.bind, deref, pure, Except.pure, dot]
          | some data =>
            cases hasFlag flag H_HIDE_DOT <;> by_cases dot : key.bytes.head? = some 46 <;>
              simp [skipped, bind, Except.bind, deref, pure, Except.pure, dot, used]
  · exact .inr (.inl rfl)

theorem exportedEntries_ne_outOfBounds (flag : Int) (argv : List CString) (slots : List Slot) :
    exportedEntries flag argv slots ≠ .error .outOfBounds := by
  induction slots with
  | nil => simp [exportedEntries]
  | cons slot slots induction =>
    rw [exportedEntries]
    rcases exportSlot_cases flag argv slot with failed | skipped | ⟨entry, selected, _⟩
    · simp [failed]
    · cases rest : exportedEntries flag argv slots <;>
        simp_all [Except.map]
    · cases rest : exportedEntries flag argv slots <;>
        simp_all [Except.map]

variable {entries : List ExportEntry}

theorem plainLength_exported_le (selected : exportedEntries flag argv slots = .ok entries) :
    plainLength entries ≤ (slots.map slotBytes).sum := by
  induction slots generalizing entries with
  | nil =>
    cases selected
    exact le_rfl
  | cons slot slots induction =>
    rw [exportedEntries] at selected
    cases rest : exportedEntries flag argv slots with
    | error fault =>
      rcases exportSlot_cases flag argv slot with failed | skipped | ⟨entry, found, _⟩ <;>
        simp_all [Except.map]
    | ok others =>
      have bound := induction rest
      rcases exportSlot_cases flag argv slot with
        failed | skipped | ⟨entry, found, used, keyEq, dataEq⟩
      · simp [failed] at selected
      · rw [skipped, rest] at selected
        cases selected
        exact bound.trans (Nat.le_add_left ..)
      · rw [found, rest] at selected
        cases selected
        simp only [Option.toList_some, List.singleton_append, plainLength, List.map_cons,
          List.sum_cons, slotBytes, used, if_true, keyEq, dataEq, pointerBytes] at bound ⊢
        omega

theorem twice_length_le_plainLength (entries : List ExportEntry) :
    2 * entries.length ≤ plainLength entries := by
  induction entries with
  | nil => exact le_rfl
  | cons entry entries induction =>
    simp only [plainLength, List.length_cons, List.map_cons, List.sum_cons] at induction ⊢
    omega

theorem escapeCount_le_plainLength (sep : UInt8) (entries : List ExportEntry) :
    escapeCount sep entries ≤ plainLength entries := by
  induction entries with
  | nil => exact le_rfl
  | cons entry entries induction =>
    have bound : entry.data.bytes.countP (needsEscape sep) ≤ entry.data.length :=
      List.countP_le_length
    simp only [escapeCount, plainLength, List.map_cons, List.sum_cons] at induction ⊢
    omega

-- A value holds no NUL, so only its backslashes are escaped.
theorem escapeCount_nul : escapeCount 0 entries = backslashCount entries := by
  unfold escapeCount backslashCount
  congr 1
  apply List.map_congr_left
  intro entry _
  apply List.countP_congr
  intro byte member
  have notNul : byte ≠ 0 := by
    rintro rfl
    exact entry.data.nulFree member
  simp [needsEscape, notNul]

/-! ## The whole call -/

variable {htab : HSearchData}

theorem measuredLength_lt (arena : htab.InArena) (sep : UInt8)
    (selected : exportedEntries flag argv htab.slots = .ok entries) :
    measuredLength sep entries + 1 < 2 ^ 32 := by
  have plain := (plainLength_exported_le selected).trans arena
  have count := twice_length_le_plainLength entries
  have escapes := escapeCount_le_plainLength sep entries
  simp only [measuredLength, mallocLength] at plain ⊢
  split <;> omega

theorem hexportR_selected (selected : exportedEntries flag argv htab.slots = .ok entries) :
    hexportR htab sep flag available size argv =
      if size ≠ 0 ∧ size < UInt32.ofNat (measuredLength sep entries) + 1 then
        .ok none
      else
        bif available then
          ((⟨[], (if size ≠ 0 then size else
              UInt32.ofNat (measuredLength sep entries) + 1).toNat⟩ :
            ExportBuffer).putString (exportText sep
              (Library.qsort cmpkey entries.toArray).toList ++ [0])).map some
        else
          .ok none := by
  rw [hexportR, exportPass1_eq, selected]
  simp only [Except.map, List.nil_append, UInt32.zero_add]
  split
  · rfl
  · cases available with
    | false => rfl
    | true =>
      simp only [cond_true, exportPass2_eq, ExportBuffer.put_eq, ExportBuffer.putString_append]
      cases ExportBuffer.putString _ _ <;> rfl

-- In the arena the length that the first pass computes does not wrap.
theorem hexportR_eq (arena : htab.InArena) (sep : UInt8) (available : Bool) (size : UInt32)
    (selected : exportedEntries flag argv htab.slots = .ok entries) :
    hexportR htab sep flag available size argv =
      if size ≠ 0 ∧ size.toNat < measuredLength sep entries + 1 then
        .ok none
      else
        bif available then
          ((⟨[], if size ≠ 0 then size.toNat else measuredLength sep entries + 1⟩ :
            ExportBuffer).putString (exportText sep
              (Library.qsort cmpkey entries.toArray).toList ++ [0])).map some
        else
          .ok none := by
  have small := measuredLength_lt arena sep selected
  have needed : (UInt32.ofNat (measuredLength sep entries) + 1).toNat =
      measuredLength sep entries + 1 := by
    have measured : (UInt32.ofNat (measuredLength sep entries)).toNat =
        measuredLength sep entries := by
      rw [UInt32.toNat_ofNat']
      exact Nat.mod_eq_of_lt (by omega)
    rw [UInt32.toNat_add, measured]
    exact Nat.mod_eq_of_lt small
  rw [hexportR_selected selected]
  simp only [UInt32.lt_iff_toNat_lt, apply_ite UInt32.toNat, needed]

theorem putString_inside_iff :
    ((⟨[], size⟩ : ExportBuffer).putString bytes).map some ≠ .error .outOfBounds ↔
      bytes.length ≤ size := by
  rw [ExportBuffer.putString_eq ⟨[], size⟩ (Nat.zero_le size)]
  simp only [List.length_nil, Nat.zero_add]
  split
  · rename_i inside
    simp [Except.map, inside]
  · rename_i outside
    simp [Except.map, outside]

/-- An export writes past the end of its buffer exactly when the separator is
NUL and the backslashes do not fit. -/
theorem export_inside_iff (htab : HSearchData) (arena : htab.InArena) (sep : UInt8) (flag : Int)
    (available : Bool) (size : UInt32) (argv : List CString) :
    hexportR htab sep flag available size argv ≠ .error .outOfBounds ↔
      (available = true → BackslashesFit htab sep flag size argv) := by
  cases selected : exportedEntries flag argv htab.slots with
  | error fault =>
    have harmless := exportedEntries_ne_outOfBounds flag argv htab.slots
    rw [selected] at harmless
    have unselected : BackslashesFit htab sep flag size argv := by
      intro entries found
      rw [selected] at found
      cases found
    rw [hexportR, exportPass1_eq, selected]
    simp only [unselected, implies_true, iff_true]
    intro failed
    cases failed
    exact harmless rfl
  | ok entries =>
    rw [hexportR_eq arena sep available size selected]
    have perm : (Library.qsort cmpkey entries.toArray).toList.Perm entries :=
      (Library.qsort_perm cmpkey entries.toArray).toList
    have length : (exportText sep (Library.qsort cmpkey entries.toArray).toList ++ [0]).length =
        plainLength entries + escapeCount sep entries + 1 := by
      rw [List.length_append, length_exportText, plainLength_perm perm, escapeCount_perm perm]
      rfl
    have fits : BackslashesFit htab sep flag size argv ↔ (sep = 0 →
        (size ≠ 0 → plainLength entries + 2 * entries.length + 1 ≤ size.toNat) →
        backslashCount entries ≤ 2 * entries.length + spareBytes size entries) := by
      constructor
      · intro fits
        exact fits entries selected
      · intro fits others found
        cases selected.symm.trans found
        exact fits
    rw [fits]
    cases available with
    | false =>
      simp only [cond_false, ite_self, Bool.false_eq_true, false_implies, iff_true]
      simp
    | true =>
      simp only [cond_true, forall_const]
      by_cases refused : size ≠ 0 ∧ size.toNat < measuredLength sep entries + 1
      · rw [if_pos refused]
        refine iff_of_true (by simp) ?_
        intro nul checked
        have enough := checked refused.1
        have short := refused.2
        simp only [measuredLength, nul, if_true] at short
        omega
      · rw [if_neg refused, putString_inside_iff, length]
        by_cases nul : sep = 0
        · subst nul
          rw [escapeCount_nul]
          by_cases given : size = 0
          · simp only [given, measuredLength, spareBytes, ne_eq, not_true_eq_false, if_false,
              if_true, false_implies, true_implies]
            omega
          · simp only [given, measuredLength, spareBytes, ne_eq, not_false_eq_true, if_false,
              if_true, true_implies, true_and] at refused ⊢
            omega
        · refine iff_of_true ?_ (fun isNul => absurd isNul nul)
          by_cases given : size = 0
          · simp only [given, measuredLength, nul, ne_eq, not_true_eq_false, if_false]
            omega
          · simp only [given, measuredLength, nul, ne_eq, not_false_eq_true, if_false,
              if_true, true_and] at refused ⊢
            omega

def backslashTable : Exec HSearchData :=
  (perform permissiveHooks (emptyTable 67)
    (.enter (letter 97) (.ofBytes [backslash, backslash, backslash]) 0 .succeeds)).map Prod.snd

theorem export_inside_text :
    ∃ htab, backslashTable = .ok htab ∧ hexportR htab 10 0 true 0 [] ≠ .error .outOfBounds := by
  obtain ⟨htab, created, arena⟩ : ∃ htab, backslashTable = .ok htab ∧ htab.InArena :=
    Exec.Returns.exists (by decide +kernel)
  refine ⟨htab, created, (export_inside_iff htab arena 10 0 true 0 []).mpr ?_⟩
  intro _ entries _ nul
  cases nul

/-- Exported with separator NUL, as `saveenv` does, the variable needs one byte
more than the first pass measured. -/
theorem export_overruns_buffer : hcreateR 64 true = .ok (some (emptyTable 67)) ∧
      ∃ htab, backslashTable = .ok htab ∧ htab.InArena ∧
        hexportR htab 0 0 true 0 [] = .error .outOfBounds := by
  refine ⟨hcreateR_sixtyFour, Exec.Returns.exists ?_⟩
  decide +kernel

end UBootV210.Environment
