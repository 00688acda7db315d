import UBootV210.Foundation.Occurrence
import UBootV210.Foundation.Trim

/-! # Attribute lists

An embedding of `common/env_attr.c`. A list has entries `name[:attributes]` between
commas. `env_attr_walk` parses it from the left; `env_attr_lookup` looks for a
name from the right. -/

namespace UBootV210.Environment

def comma : UInt8 := 44

def colon : UInt8 := 58

def blank : UInt8 := 32

/-- The bytes that `_ctype` marks as white space. -/
def isspace (byte : UInt8) : Bool := (9 ≤ byte && byte ≤ 13) || byte == 32 || byte == 160

def strim (string : List UInt8) : List UInt8 := Trim.trim isspace string

/-- The entries of a list; there is one more than there are commas. -/
def attrEntries : List UInt8 → List (List UInt8)
  | [] => [[]]
  | byte :: list =>
      if byte = comma then
        [] :: attrEntries list
      else
        match attrEntries list with
        | [] => [[byte]]
        | entry :: entries => (byte :: entry) :: entries

def entryName (entry : List UInt8) : List UInt8 := entry.takeWhile (· ≠ colon)

def entryAttributes (entry : List UInt8) : Option (List UInt8) :=
  match entry.dropWhile (· ≠ colon) with
  | [] => none
  | _ :: attributes => some attributes

section

variable {State : Type} (callback : CString → Option CString → State → Int × State)

def walkEntry (entry : List UInt8) (state : State) : Int × State :=
  let attributes := (entryAttributes entry).map strim
  let name := strim (entryName entry)
  if name = [] then
    (0, state)
  else
    callback (.ofBytes name) (attributes.map .ofBytes) state

def walkEntries : List (List UInt8) → State → Int × State
  | [], state => (0, state)
  | entry :: entries, state =>
      let (retval, state) := walkEntry callback entry state
      if retval ≠ 0 then (retval, state) else walkEntries entries state

/-- `env_attr_walk`, with memory for the copy of every entry. -/
def envAttrWalk (attrList : Option CString) (state : State) : Int × State :=
  match attrList with
  | none => (1, state)
  | some attrList => walkEntries callback (attrEntries attrList.bytes) state

end

def reverseStrstr (searched searchFor : List UInt8) (searchedStart : Option Nat) :
    Exec (Option Nat) :=
  if searchFor = [] then
    .ok (some 0)
  else
    Occurrence.lastOccurrenceLoop searchFor searched searchedStart (searched.length + 1) 0 none

/-- `while (*prevch == ' ') prevch--`, on the bytes before a position, the nearest
one first. -/
def skipBack : List UInt8 → Exec UInt8
  | [] => .error .outOfBounds
  | byte :: bytes => if byte = blank then skipBack bytes else .ok byte

def skipSpaces (text : List UInt8) : List UInt8 := text.dropWhile (· = blank)

def nextByte (text : List UInt8) : UInt8 := (skipSpaces text).headD 0

/-- The loop over the hits. `before` is the memory in front of the list: the scan to
the left reads at least one byte of it for a hit at the beginning of the list. -/
def lookupLoop (before attrList name : List UInt8) : Nat → Option Nat → Exec (Option Nat)
  | 0, _ => .error .diverges
  | _ + 1, none => .ok none
  | fuel + 1, some entry => do
      let prevch ← skipBack (before ++ attrList.take entry).reverse
      let nextch := nextByte (attrList.drop (entry + name.length))
      if (entry = 0 ∨ prevch = comma) ∧ (nextch = colon ∨ nextch = comma ∨ nextch = 0) then
        .ok (some entry)
      else
        let entry ← reverseStrstr attrList name (some entry)
        lookupLoop before attrList name fuel entry

def attributesAfter (text : List UInt8) : List UInt8 :=
  match skipSpaces text with
  | [] => []
  | byte :: text =>
      if byte = colon then
        (skipSpaces text).takeWhile fun byte => byte ≠ comma && byte ≠ blank
      else
        []

/-- `env_attr_lookup` with a buffer that is large enough. -/
def envAttrLookup (before : List UInt8) (attrList : Option CString) (name : CString) :
    Exec (Int × Option CString) :=
  match attrList with
  | none => .ok (1, none)
  | some attrList => do
      let entry ← reverseStrstr attrList.bytes name.bytes none
      let entry ← lookupLoop before attrList.bytes name.bytes (attrList.length + 2) entry
      match entry with
      | none => .ok (2, none)
      | some entry =>
          .ok (0, some (.ofBytes (attributesAfter (attrList.bytes.drop (entry + name.length)))))

end UBootV210.Environment
