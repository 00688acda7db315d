import UBootV210.Foundation.CheckedMemory
import UBootV210.Environment.HashTableExport

/-! # Importing the environment

An embedding of `himport_r`. The parser runs over the copy of the input, a block
of exactly `size` bytes whose accesses are checked. The cursors `dp`, `sp`,
`name` and `value` are offsets into the block. -/

namespace UBootV210.Environment

open CheckedMemory

def H_NOCLEAR : Nat := 0

def hashSign : UInt8 := 35

def isblank (byte : UInt8) : Bool := byte = 32 || byte = 9

/-! ## Parsing one entry -/

def skipBlanks (data : List UInt8) (dp : Nat) : Exec Nat :=
  scanWhile isblank data (data.length + 1) dp

def isCommentByte (sep byte : UInt8) : Bool := byte ≠ 0 && byte ≠ sep

def skipComment (sep : UInt8) (data : List UInt8) (dp : Nat) : Exec Nat :=
  scanWhile (isCommentByte sep) data (data.length + 1) dp

def isNameByte (sep byte : UInt8) : Bool := byte ≠ equalsSign && byte ≠ 0 && byte ≠ sep

def scanName (sep : UInt8) (data : List UInt8) (dp : Nat) : Exec Nat :=
  scanWhile (isNameByte sep) data (data.length + 1) dp

/-- The value loop: it copies the value over itself without its escapes, from
`dp` to `sp`. -/
def scanValue (sep : UInt8) : Nat → List UInt8 → Nat → Nat → Exec (List UInt8 × Nat × Nat)
  | 0, _, _, _ => .error .diverges
  | fuel + 1, data, sp, dp => do
      let byte ← load data dp
      if byte = 0 ∨ byte = sep then
        return (data, sp, dp)
      let dp ← if byte = backslash then do
          let next ← load data (dp + 1)
          pure (if next ≠ 0 then dp + 1 else dp)
        else pure dp
      let byte ← load data dp
      let data ← store data sp byte
      scanValue sep fuel data (sp + 1) (dp + 1)

inductive ImportEvent
  | comment
  | delete (name : CString)
  | insert (name value : CString)
  deriving DecidableEq

/-- The condition for "name" and "name=" entries; the byte after `dp` is read
unless `dp` is at a NUL. -/
def isDeletion (sep : UInt8) (data : List UInt8) (dp : Nat) (stop : UInt8) : Exec Bool :=
  if stop = 0 then
    .ok true
  else
    (load data (dp + 1)).map fun next => next = 0 || stop = sep || next = sep

def parseAfterName (sep : UInt8) (data : List UInt8) (name dp : Nat) :
    Exec (ImportEvent × List UInt8 × Nat) := do
  let stop ← load data dp
  if ← isDeletion sep data dp stop then
    if stop = equalsSign then
      let data ← store data dp 0
      let data ← store data (dp + 1) 0
      let name ← loadString data name
      return (.delete name, data, dp + 1 + 1)
    else
      let data ← store data dp 0
      let name ← loadString data name
      return (.delete name, data, dp + 1)
  let data ← store data dp 0
  let value := dp + 1
  let (data, sp, dp) ← scanValue sep (data.length + 1) data value value
  let data ← store data sp 0
  let name ← loadString data name
  let value ← loadString data value
  return (.insert name value, data, dp + 1)

/-- The part of the loop body that moves the cursors: what the entry asks for,
the block after its terminators were stored, and the cursor behind it. -/
def parseEntry (sep : UInt8) (data : List UInt8) (dp : Nat) :
    Exec (ImportEvent × List UInt8 × Nat) := do
  let dp ← skipBlanks data dp
  let first ← load data dp
  if first = hashSign then
    let dp ← skipComment sep data dp
    return (.comment, data, dp + 1)
  let name := dp
  let dp ← scanName sep data dp
  parseAfterName sep data name dp

def dropVarFromSet (name : CString) (vars : List (Option CString)) :
    Bool × List (Option CString) :=
  if vars.isEmpty then
    (true, vars)
  else
    (vars.any (· = some name), vars.map fun var => if var = some name then none else var)

structure ImportState where
  htab : HSearchData
  localvars : List (Option CString)

/-- What the loop body does with a parsed entry. A failed deletion or insertion
is only reported. -/
def applyEvent (hooks : Hooks) (allocation : Allocation) (flag : Int) (state : ImportState) :
    ImportEvent → Exec ImportState
  | .comment => .ok state
  | .delete name =>
      let (process, localvars) := dropVarFromSet name state.localvars
      bif process then
        (hdeleteR hooks name state.htab flag).map fun result => ⟨result.2, localvars⟩
      else
        .ok { state with localvars := localvars }
  | .insert name value =>
      let (process, localvars) := dropVarFromSet name state.localvars
      bif process then
        (hsearchR hooks allocation ⟨name, some value⟩ .enter state.htab flag).map
          fun result => ⟨result.2, localvars⟩
      else
        .ok { state with localvars := localvars }

inductive ImportExit
  | finished (state : ImportState)
  | emptyName (state : ImportState)

/-- The `do ... while` loop. Every turn moves `dp`, so the allocations of a turn
are given by the offset at which it starts. -/
def importLoop (hooks : Hooks) (allocations : Nat → Allocation) (sep : UInt8) (flag : Int) :
    Nat → List UInt8 → Nat → ImportState → Exec ImportExit
  | 0, _, _, _ => .error .diverges
  | fuel + 1, data, dp, state => do
      let (event, data, next) ← parseEntry sep data dp
      match event with
      | .insert ⟨[], _⟩ _ => return .emptyName state
      | event =>
          let state ← applyEvent hooks (allocations dp) flag state event
          if next < data.length then
            let byte ← load data next
            if byte ≠ 0 then
              importLoop hooks allocations sep flag fuel data next state
            else
              return .finished state
          else
            return .finished state

def deleteMissing (hooks : Hooks) (flag : Int) : List (Option CString) → HSearchData →
    Exec HSearchData
  | [], htab => .ok htab
  | none :: vars, htab => deleteMissing hooks flag vars htab
  | some var :: vars, htab => do
      let (_, htab) ← hdeleteR hooks var htab flag
      deleteMissing hooks flag vars htab

def importEntries (size : Nat) : Nat := min (64 + size / 8) 512

/-- The table that the import fills: the old one when it is kept, otherwise a
new one. -/
def importTable (htab : Option HSearchData) (size : Nat) (flag : Int) (calloc : Bool) :
    Exec (Option HSearchData) :=
  match bif hasFlag flag H_NOCLEAR then htab else none with
  | some htab => .ok (some htab)
  | none => hcreateR (UInt32.ofNat (importEntries size)) calloc

structure ImportResult where
  ret : Nat
  htab : Option HSearchData

/-- `himport_r`. The descriptor holds no table before the first import. -/
def himportR (hooks : Hooks) (malloc calloc : Bool) (allocations : Nat → Allocation)
    (htab : Option HSearchData) (env : List UInt8) (sep : UInt8) (flag : Int)
    (vars : List CString) : Exec ImportResult :=
  bif malloc then do
    match ← importTable htab env.length flag calloc with
    | none => return ⟨0, none⟩
    | some htab =>
        match ← importLoop hooks allocations sep flag (env.length + 1) env 0
            ⟨htab, vars.map some⟩ with
        | .emptyName state => return ⟨0, some state.htab⟩
        | .finished state =>
            let htab ← deleteMissing hooks flag state.localvars state.htab
            return ⟨1, some htab⟩
  else
    .ok ⟨0, htab⟩

end UBootV210.Environment
