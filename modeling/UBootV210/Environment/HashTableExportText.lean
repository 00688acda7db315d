import UBootV210.Environment.HashTableExport

/-! # The text that an export writes

The two passes of `hexport_r` as functions of the exported entries: the length
that the first pass computes and the bytes that the second pass stores. -/

namespace UBootV210.Environment

def escapeByte (sep byte : UInt8) : List UInt8 :=
  bif needsEscape sep byte then [backslash, byte] else [byte]

def escape (sep : UInt8) (bytes : List UInt8) : List UInt8 := bytes.flatMap (escapeByte sep)

def exportLine (sep : UInt8) (entry : ExportEntry) : List UInt8 :=
  entry.key.bytes ++ [equalsSign] ++ escape sep entry.data.bytes ++ [sep]

def exportText (sep : UInt8) (entries : List ExportEntry) : List UInt8 :=
  entries.flatMap (exportLine sep)

def plainLength (entries : List ExportEntry) : Nat :=
  (entries.map fun entry => entry.key.length + entry.data.length + 2).sum

def escapeCount (sep : UInt8) (entries : List ExportEntry) : Nat :=
  (entries.map fun entry => entry.data.bytes.countP (needsEscape sep)).sum

theorem length_escape (sep : UInt8) (bytes : List UInt8) :
    (escape sep bytes).length = bytes.length + bytes.countP (needsEscape sep) := by
  induction bytes with
  | nil => rfl
  | cons byte bytes induction =>
    rw [escape, List.flatMap_cons, List.length_append, ← escape]
    cases needed : needsEscape sep byte with
    | true =>
      simp only [escapeByte, needed, cond_true, List.length_cons, List.length_nil,
        List.countP_cons_of_pos]
      omega
    | false =>
      simp only [escapeByte, needed, cond_false, List.length_cons, List.length_nil,
        List.countP_cons, Bool.false_eq_true, if_false]
      omega

theorem length_exportText (sep : UInt8) (entries : List ExportEntry) :
    (exportText sep entries).length = plainLength entries + escapeCount sep entries := by
  induction entries with
  | nil => rfl
  | cons entry entries induction =>
    rw [exportText, List.flatMap_cons, List.length_append, ← exportText, induction]
    simp only [exportLine, List.length_append, List.length_cons, List.length_nil,
      length_escape, plainLength, escapeCount, List.map_cons, List.sum_cons, CString.length]
    omega

variable {left right : List ExportEntry}

theorem plainLength_perm (perm : left.Perm right) : plainLength left = plainLength right :=
  (perm.map _).sum_eq

theorem escapeCount_perm (perm : left.Perm right) : escapeCount sep left = escapeCount sep right :=
  (perm.map _).sum_eq

namespace ExportBuffer

theorem put_eq (buffer : ExportBuffer) (byte : UInt8) :
    buffer.put byte = buffer.putString [byte] := by
  rw [putString]
  cases buffer.put byte <;> rfl

theorem putString_append (buffer : ExportBuffer) (left right : List UInt8) :
    buffer.putString (left ++ right) = buffer.putString left >>= fun buffer =>
      buffer.putString right := by
  induction left generalizing buffer with
  | nil => rfl
  | cons byte left induction => simp [putString, induction, bind_assoc]

theorem putEscaped_eq (sep : UInt8) (buffer : ExportBuffer) (bytes : List UInt8) :
    buffer.putEscaped sep bytes = buffer.putString (escape sep bytes) := by
  induction bytes generalizing buffer with
  | nil => rfl
  | cons byte bytes induction =>
    rw [escape, List.flatMap_cons, ← escape]
    cases needed : needsEscape sep byte with
    | true =>
      simp only [putEscaped, escapeByte, needed, cond_true, induction]
      rfl
    | false =>
      simp only [putEscaped, escapeByte, needed, cond_false, induction]
      rfl

theorem putString_eq (buffer : ExportBuffer) (inside : buffer.written.length ≤ buffer.size)
    (bytes : List UInt8) :
    buffer.putString bytes =
      if buffer.written.length + bytes.length ≤ buffer.size then
        .ok { buffer with written := buffer.written ++ bytes }
      else
        .error .outOfBounds := by
  induction bytes generalizing buffer with
  | nil => simp [putString, inside]
  | cons byte bytes induction =>
    rw [putString, put]
    by_cases room : buffer.written.length < buffer.size
    · rw [if_pos room]
      have advanced := induction { buffer with written := buffer.written ++ [byte] }
        (by simp only [List.length_append, List.length_cons, List.length_nil]; omega)
      change putString _ bytes = _
      rw [advanced]
      simp only [List.length_append, List.length_cons, List.length_nil, List.append_assoc,
        List.cons_append, List.nil_append]
      congr 2
      omega
    · rw [if_neg room, if_neg (by simp only [List.length_cons]; omega)]
      rfl

end ExportBuffer

theorem exportPass2_eq :
    exportPass2 sep entries buffer = buffer.putString (exportText sep entries) := by
  induction entries generalizing buffer with
  | nil => rfl
  | cons entry entries induction =>
    simp only [exportPass2, exportText, List.flatMap_cons, exportLine,
      ExportBuffer.putString_append, bind_assoc, ExportBuffer.put_eq,
      ExportBuffer.putEscaped_eq]
    simp only [induction, exportText]

def exportedEntries (flag : Int) (argv : List CString) : List Slot → Exec (List ExportEntry)
  | [] => .ok []
  | slot :: slots =>
      match exportSlot flag argv slot with
      | .error fault => .error fault
      | .ok found => (exportedEntries flag argv slots).map (found.toList ++ ·)

/-- The exact value of `totlen`, before it is cut to 32 bits. -/
def measuredLength (sep : UInt8) (entries : List ExportEntry) : Nat :=
  plainLength entries + 2 * entries.length + if sep = 0 then 0 else escapeCount sep entries

theorem escapedLength_eq : escapedLength sep bytes totlen =
      totlen + UInt32.ofNat (bytes.length + bytes.countP (needsEscape sep)) := by
  induction bytes generalizing totlen with
  | nil => simp [escapedLength]
  | cons byte bytes induction =>
    rw [escapedLength, induction]
    cases needed : needsEscape sep byte <;>
      simp [needed, UInt32.ofNat_add] <;> ac_rfl

theorem addEntryLength_eq (sep : UInt8) (entry : ExportEntry) (totlen : UInt32) :
    addEntryLength sep entry totlen = totlen + UInt32.ofNat (measuredLength sep [entry]) := by
  by_cases nul : sep = 0
  · simp [addEntryLength, measuredLength, plainLength, nul, UInt32.ofNat_add]
    ac_rfl
  · simp [addEntryLength, measuredLength, plainLength, escapeCount, nul, escapedLength_eq,
      UInt32.ofNat_add, CString.length]
    ac_rfl

theorem measuredLength_cons (sep : UInt8) (entry : ExportEntry) (entries : List ExportEntry) :
    measuredLength sep (entry :: entries) =
      measuredLength sep [entry] + measuredLength sep entries := by
  simp only [measuredLength, plainLength, escapeCount, List.map_cons, List.sum_cons,
    List.map_nil, List.sum_nil, List.length_cons, List.length_nil]
  split <;> omega

theorem exportPass1_eq : exportPass1 sep flag argv slots list totlen =
      (exportedEntries flag argv slots).map fun entries =>
        (list ++ entries, totlen + UInt32.ofNat (measuredLength sep entries)) := by
  induction slots generalizing list totlen with
  | nil => simp [exportPass1, exportedEntries, Except.map, measuredLength, plainLength, escapeCount]
  | cons slot slots induction =>
    rw [exportPass1, exportedEntries]
    cases selected : exportSlot flag argv slot with
    | error fault => rfl
    | ok found =>
      cases found with
      | none =>
        dsimp only
        rw [induction]
        cases exportedEntries flag argv slots <;> rfl
      | some entry =>
        dsimp only
        rw [induction]
        cases exportedEntries flag argv slots with
        | error fault => rfl
        | ok entries =>
          simp only [Except.map, Option.toList_some, List.singleton_append,
            measuredLength_cons sep entry entries, addEntryLength_eq, UInt32.ofNat_add,
            List.append_assoc, UInt32.add_assoc]

end UBootV210.Environment
