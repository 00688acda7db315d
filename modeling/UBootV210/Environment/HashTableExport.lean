import UBootV210.Library.Qsort
import UBootV210.Environment.HashTable

/-! # Exporting the environment

An embedding of `hexport_r` and the functions it calls. Every byte of the second
pass is stored through a bounds check, so writing past the buffer is a fault. -/

namespace UBootV210.Environment

def hasFlag (flag : Int) (bit : Nat) : Bool := (BitVec.ofInt 32 flag).getLsbD bit

def H_HIDE_DOT : Nat := 3
def H_MATCH_KEY : Nat := 4
def H_MATCH_DATA : Nat := 5
def H_MATCH_IDENT : Nat := 6
def H_MATCH_SUBSTR : Nat := 7
def H_MATCH_REGEX : Nat := 8

def backslash : UInt8 := 92

def equalsSign : UInt8 := 61

/-- The difference of the first bytes that differ, cut to a signed char. -/
def strcmp : List UInt8 → List UInt8 → Int
  | [], [] => 0
  | [], right :: _ => (BitVec.ofInt 8 (0 - right.toNat)).toInt
  | left :: _, [] => (BitVec.ofInt 8 left.toNat).toInt
  | left :: lefts, right :: rights =>
      if left = right then
        strcmp lefts rights
      else
        (BitVec.ofInt 8 (left.toNat - right.toNat)).toInt

def strstr (pattern : List UInt8) : List UInt8 → Bool
  | [] => pattern.isEmpty
  | byte :: bytes => pattern.isPrefixOf (byte :: bytes) || strstr pattern bytes

def deref (pointer : Option CString) : Exec CString :=
  match pointer with
  | none => .error .nullPointer
  | some string => .ok string

-- Without `CONFIG_REGEX`. Combined methods are unsupported and match nothing.
def matchString (flag : Int) (str : Option CString) (pat : CString) : Exec Bool :=
  match hasFlag flag H_MATCH_IDENT, hasFlag flag H_MATCH_SUBSTR, hasFlag flag H_MATCH_REGEX with
  | true, false, false => (deref str).map fun str => strcmp str.bytes pat.bytes = 0
  | false, true, false => (deref str).map fun str => strstr pat.bytes str.bytes
  | _, _, _ => .ok false

def matchEntry (entry : Entry) (flag : Int) : List CString → Exec Bool
  | [] => .ok false
  | pat :: argv => do
      let keyMatches ← bif hasFlag flag H_MATCH_KEY then
        matchString flag entry.key pat else .ok false
      if keyMatches then
        return true
      let dataMatches ← bif hasFlag flag H_MATCH_DATA then
        matchString flag entry.data pat else .ok false
      if dataMatches then
        return true
      matchEntry entry flag argv

structure ExportEntry where
  key : CString
  data : CString
  deriving DecidableEq

/-- The body of the first loop up to `list[n++] = ep`, with the strings that the
rest of the function reads through the saved pointer. -/
def exportSlot (flag : Int) (argv : List CString) (slot : Slot) : Exec (Option ExportEntry) :=
  if 0 < slot.used then do
    let found ← matchEntry slot.entry flag argv
    if !argv.isEmpty && !found then
      return none
    if hasFlag flag H_HIDE_DOT then
      let key ← deref slot.entry.key
      if key.bytes.head? = some 46 then
        return none
    let key ← deref slot.entry.key
    let data ← deref slot.entry.data
    return some ⟨key, data⟩
  else
    .ok none

def needsEscape (sep byte : UInt8) : Bool := byte = sep || byte = backslash

def escapedLength (sep : UInt8) : List UInt8 → UInt32 → UInt32
  | [], totlen => totlen
  | byte :: bytes, totlen =>
      escapedLength sep bytes (bif needsEscape sep byte then totlen + 1 + 1 else totlen + 1)

def addEntryLength (sep : UInt8) (entry : ExportEntry) (totlen : UInt32) : UInt32 :=
  let totlen := totlen + (UInt32.ofNat entry.key.length + 2)
  let totlen :=
    if sep = 0 then
      totlen + UInt32.ofNat entry.data.length
    else
      escapedLength sep entry.data.bytes totlen
  totlen + 2

def exportPass1 (sep : UInt8) (flag : Int) (argv : List CString) :
    List Slot → List ExportEntry → UInt32 → Exec (List ExportEntry × UInt32)
  | [], list, totlen => .ok (list, totlen)
  | slot :: slots, list, totlen =>
      match exportSlot flag argv slot with
      | .error fault => .error fault
      | .ok none => exportPass1 sep flag argv slots list totlen
      | .ok (some entry) =>
          exportPass1 sep flag argv slots (list ++ [entry]) (addEntryLength sep entry totlen)

def cmpkey (left right : ExportEntry) : Int := strcmp left.key.bytes right.key.bytes

structure ExportBuffer where
  written : List UInt8
  size : Nat
  deriving DecidableEq

namespace ExportBuffer

def put (buffer : ExportBuffer) (byte : UInt8) : Exec ExportBuffer :=
  if buffer.written.length < buffer.size then
    .ok { buffer with written := buffer.written ++ [byte] }
  else
    .error .outOfBounds

def putString (buffer : ExportBuffer) : List UInt8 → Exec ExportBuffer
  | [] => .ok buffer
  | byte :: bytes => do
      let buffer ← buffer.put byte
      buffer.putString bytes

def putEscaped (sep : UInt8) (buffer : ExportBuffer) : List UInt8 → Exec ExportBuffer
  | [] => .ok buffer
  | byte :: bytes => do
      let buffer ← bif needsEscape sep byte then buffer.put backslash else .ok buffer
      let buffer ← buffer.put byte
      buffer.putEscaped sep bytes

/-- The buffer was cleared before, so the bytes after the text are NULs. -/
def contents (buffer : ExportBuffer) : List UInt8 :=
  buffer.written ++ List.replicate (buffer.size - buffer.written.length) 0

end ExportBuffer

def exportPass2 (sep : UInt8) : List ExportEntry → ExportBuffer → Exec ExportBuffer
  | [], buffer => .ok buffer
  | entry :: list, buffer => do
      let buffer ← buffer.putString entry.key.bytes
      let buffer ← buffer.put equalsSign
      let buffer ← buffer.putEscaped sep entry.data.bytes
      let buffer ← buffer.put sep
      exportPass2 sep list buffer

-- The slots `1 .. size`, in the order of the first loop.
def HSearchData.slots (htab : HSearchData) : List Slot :=
  (List.range htab.size.toNat).map fun index => htab.table (index + 1)

/-- `hexport_r` with a valid table and result pointer; `none` is its return
value `-1`. A buffer is available when the caller supplied one or `calloc`
succeeds. -/
def hexportR (htab : HSearchData) (sep : UInt8) (flag : Int) (available : Bool) (size : UInt32)
    (argv : List CString) : Exec (Option ExportBuffer) :=
  match exportPass1 sep flag argv htab.slots [] 0 with
  | .error fault => .error fault
  | .ok (list, totlen) =>
      let list := (Library.qsort cmpkey list.toArray).toList
      if size ≠ 0 ∧ size < totlen + 1 then
        .ok none
      else
        let size := if size ≠ 0 then size else totlen + 1
        bif available then
          match exportPass2 sep list ⟨[], size.toNat⟩ with
          | .error fault => .error fault
          | .ok buffer => (buffer.put 0).map some
        else
          .ok none

end UBootV210.Environment
