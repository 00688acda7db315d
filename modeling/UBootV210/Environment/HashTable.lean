import UBootV210.Foundation.CString

/-! # The environment hash table

An embedding of `lib/hashtable.c`: open addressing with double hashing, where
a deleted slot keeps a tombstone so that longer probe sequences still pass
over it. -/

namespace UBootV210.Environment

inductive EnvOp
  | create
  | delete
  | overwrite
  deriving DecidableEq, Repr

inductive Action
  | find
  | enter
  deriving DecidableEq, Repr

inductive Errno
  | EINVAL
  | ENOMEM
  | EPERM
  | ESRCH
  deriving DecidableEq, Repr

abbrev CallbackId := Nat

structure Attributes where
  callback : Option CallbackId
  flags : Int
  deriving DecidableEq

/-- `ENTRY`. A pointer field is `none` when it is `NULL`. -/
structure Entry extends Attributes where
  key : Option CString
  data : Option CString
  deriving DecidableEq

/-- `_ENTRY`. The field `used` is `0` for a slot that was never used, `-1` for
a tombstone, and otherwise the first hash index of the stored key. -/
structure Slot where
  used : Int
  entry : Entry
  deriving DecidableEq

def Slot.cleared : Slot where
  used := 0
  entry := { callback := none, flags := 0, key := none, data := none }

/-- `struct hsearch_data` with an allocated table. Slots `1 .. size` are in
use; index zero is never touched. -/
structure HSearchData where
  table : Nat → Slot
  size : UInt32
  filled : UInt32

namespace HSearchData

def setSlot (htab : HSearchData) (idx : UInt32) (slot : Slot) : HSearchData :=
  { htab with table := Function.update htab.table idx.toNat slot }

/-- Replace the attributes of every entry that `hwalk_r` visits, as the callbacks of
`.flags` and `.callbacks` do. -/
def setAttributes (htab : HSearchData) (attributes : Entry → Attributes) :
    HSearchData :=
  { htab with
    table := fun index =>
      if 1 ≤ index ∧ index ≤ htab.size.toNat ∧ 0 < (htab.table index).used then
        { htab.table index with
          entry := { (htab.table index).entry with
            toAttributes := attributes (htab.table index).entry } }
      else
        htab.table index }

end HSearchData

/-- The functions that a table reaches through pointers. A permission check
rejects with `true`; a callback rejects with `none` and otherwise may update
the attributes of the entries. -/
structure Hooks where
  changeOk : Option (Entry → Option CString → EnvOp → Int → Bool)
  envCallbackInit : HSearchData → Entry → Option CallbackId
  envFlagsInit : HSearchData → Entry → Int
  callback : CallbackId → CString → Option CString → EnvOp → Int → HSearchData →
    Option (Entry → Attributes)

namespace Hooks

def rejects (hooks : Hooks) (entry : Entry) (newval : Option CString) (op : EnvOp)
    (flag : Int) : Bool :=
  match hooks.changeOk with
  | none => false
  | some changeOk => changeOk entry newval op flag

def runCallback (hooks : Hooks) (htab : HSearchData) (entry : Entry) (name : CString)
    (value : Option CString) (op : EnvOp) (flag : Int) : Option HSearchData :=
  match entry.callback with
  | none => some htab
  | some callback =>
      (hooks.callback callback name value op flag htab).map htab.setAttributes

end Hooks

structure Allocation where
  key : Bool
  data : Bool
  deriving DecidableEq

def Allocation.succeeds : Allocation := ⟨true, true⟩

def strdup (available : Bool) (string : CString) : Option CString :=
  bif available then some string else none

structure Item where
  key : CString
  data : Option CString

/-- What `hsearch_r` hands back: its return value, the slot `*retval` points
into, and the error number when it set one. -/
structure HSearchReturn where
  ret : Nat
  retval : Option Nat
  errno : Option Errno
  deriving DecidableEq

namespace HSearchReturn

def success (ret : Nat) (idx : UInt32) : HSearchReturn := ⟨ret, some idx.toNat, none⟩

def failure (errno : Errno) : HSearchReturn := ⟨0, none, some errno⟩

end HSearchReturn

def isprimeLoop : Nat → UInt32 → UInt32 → UInt32
  | 0, div, _ => div
  | fuel + 1, div, number =>
      if div * div < number ∧ number % div ≠ 0 then
        isprimeLoop fuel (div + 2) number
      else
        div

def isprime (number : UInt32) : Bool :=
  number % isprimeLoop number.toNat 3 number ≠ 0

def nextPrime : Nat → UInt32 → Exec UInt32
  | 0, _ => .error .diverges
  | fuel + 1, nel => if isprime nel then .ok nel else nextPrime fuel (nel + 2)

/-- `hcreate_r` on a descriptor without a table; `none` when `calloc` fails. -/
def hcreateR (nel : UInt32) (calloc : Bool) : Exec (Option HSearchData) :=
  match nextPrime nel.toNat (nel ||| 1) with
  | .error fault => .error fault
  | .ok size =>
      bif calloc then
        .ok (some { table := fun _ => .cleared, size := size, filled := 0 })
      else
        .ok none

/-! ## Searching -/

def hashValue (size : UInt32) (key : CString) : UInt32 :=
  let value : UInt32 := key.bytes.foldr
    (fun byte hval => (hval <<< (4 : UInt32)) + byte.toUInt32) (UInt32.ofNat key.length)
  if value % size = 0 then 1 else value % size

def hashStride (size hval : UInt32) : UInt32 := 1 + hval % (size - 2)

def probeNext (size hval2 idx : UInt32) : UInt32 :=
  if idx ≤ hval2 then size + idx - hval2 else idx - hval2

/-- `_hdelete`. The freed key and value pointers stay in the tombstone. -/
def hdelete (htab : HSearchData) (idx : UInt32) : HSearchData :=
  let slot := htab.table idx.toNat
  { htab.setSlot idx
      { used := -1, entry := { slot.entry with callback := none, flags := 0 } } with
    filled := htab.filled - 1 }

def overwriteEntry (hooks : Hooks) (allocation : Allocation) (key value : CString)
    (htab : HSearchData) (flag : Int) (idx : UInt32) : HSearchReturn × HSearchData :=
  let entry := (htab.table idx.toNat).entry
  bif hooks.rejects entry (some value) .overwrite flag then
    (.failure .EPERM, htab)
  else
    match hooks.runCallback htab entry key (some value) .overwrite flag with
    | none => (.failure .EINVAL, htab)
    | some htab =>
        let slot := htab.table idx.toNat
        let data := strdup allocation.data value
        let updated := htab.setSlot idx { slot with entry := { slot.entry with data := data } }
        match data with
        | none => (.failure .ENOMEM, updated)
        | some _ => (.success idx.toNat idx, updated)

/-- `_compare_and_overwrite_entry`; `none` stands for its return value `-1`. -/
def compareAndOverwriteEntry (hooks : Hooks) (allocation : Allocation) (item : Item)
    (action : Action) (htab : HSearchData) (flag : Int) (hval idx : UInt32) :
    Exec (Option (HSearchReturn × HSearchData)) :=
  let slot := htab.table idx.toNat
  if slot.used = hval.toNat then
    match slot.entry.key with
    | none => .error .nullPointer
    | some stored =>
        if item.key = stored then
          match action, item.data with
          | .enter, some value =>
              .ok (some (overwriteEntry hooks allocation item.key value htab flag idx))
          | _, _ => .ok (some (.success idx.toNat idx, htab))
        else
          .ok none
  else
    .ok none

inductive ProbeExit
  | returned (result : HSearchReturn × HSearchData)
  | stopped (idx : UInt32)

def probeLoop (hooks : Hooks) (allocation : Allocation) (item : Item) (action : Action)
    (htab : HSearchData) (flag : Int) (hval hval2 : UInt32) :
    Nat → UInt32 → Exec ProbeExit
  | 0, _ => .error .diverges
  | fuel + 1, idx =>
      let idx := probeNext htab.size hval2 idx
      if idx = hval then
        .ok (.stopped idx)
      else
        match compareAndOverwriteEntry hooks allocation item action htab flag hval idx with
        | .error fault => .error fault
        | .ok (some result) => .ok (.returned result)
        | .ok none =>
            if (htab.table idx.toNat).used ≠ 0 then
              probeLoop hooks allocation item action htab flag hval hval2 fuel idx
            else
              .ok (.stopped idx)

/-- The part of `hsearch_r` before the comment "An empty bucket has been
found". -/
def probe (hooks : Hooks) (allocation : Allocation) (item : Item) (action : Action)
    (htab : HSearchData) (flag : Int) (hval : UInt32) : Exec ProbeExit :=
  if (htab.table hval.toNat).used ≠ 0 then
    match compareAndOverwriteEntry hooks allocation item action htab flag hval hval with
    | .error fault => .error fault
    | .ok (some result) => .ok (.returned result)
    | .ok none =>
        probeLoop hooks allocation item action htab flag hval
          (hashStride htab.size hval) htab.size.toNat hval
  else
    .ok (.stopped hval)

/-- `first_deleted`: the loop never assigns it, so it can only name the first
probed index. -/
def firstDeleted (htab : HSearchData) (hval : UInt32) : UInt32 :=
  if (htab.table hval.toNat).used = -1 then hval else 0

/-- The slot contents that the create path stores before it looks for
attributes. Stale attributes of the slot stay. -/
def createdSlot (allocation : Allocation) (key value : CString) (hval : UInt32)
    (slot : Slot) : Slot where
  used := hval.toNat
  entry := { slot.entry with
    key := strdup allocation.key key
    data := strdup allocation.data value }

def initAttributes (hooks : Hooks) (htab : HSearchData) (idx : UInt32) : HSearchData :=
  let slot := htab.table idx.toNat
  let withCallback := { slot.entry with callback := hooks.envCallbackInit htab slot.entry }
  let htab := htab.setSlot idx { slot with entry := withCallback }
  htab.setSlot idx
    { slot with entry := { withCallback with flags := hooks.envFlagsInit htab withCallback } }

def createEntry (hooks : Hooks) (allocation : Allocation) (key value : CString)
    (htab : HSearchData) (flag : Int) (hval idx : UInt32) : HSearchReturn × HSearchData :=
  if htab.filled = htab.size then
    (.failure .ENOMEM, htab)
  else
    let idx := if firstDeleted htab hval ≠ 0 then firstDeleted htab hval else idx
    let created := createdSlot allocation key value hval (htab.table idx.toNat)
    let htab := htab.setSlot idx created
    if created.entry.key = none ∨ created.entry.data = none then
      (.failure .ENOMEM, htab)
    else
      let htab := initAttributes hooks { htab with filled := htab.filled + 1 } idx
      let entry := (htab.table idx.toNat).entry
      bif hooks.rejects entry (some value) .create flag then
        (.failure .EPERM, hdelete htab idx)
      else
        match hooks.runCallback htab entry key (some value) .create flag with
        | none => (.failure .EINVAL, hdelete htab idx)
        | some htab => (.success 1 idx, htab)

def hsearchR (hooks : Hooks) (allocation : Allocation) (item : Item) (action : Action)
    (htab : HSearchData) (flag : Int) : Exec (HSearchReturn × HSearchData) :=
  let hval := hashValue htab.size item.key
  match probe hooks allocation item action htab flag hval with
  | .error fault => .error fault
  | .ok (.returned result) => .ok result
  | .ok (.stopped idx) =>
      match action with
      | .find => .ok (.failure .ESRCH, htab)
      | .enter =>
          match item.data with
          | none =>
              -- `strdup` of `NULL` is `NULL`, as when there is no memory.
              .ok (createEntry hooks { allocation with data := false } item.key (.ofBytes []) htab
                flag hval idx)
          | some value => .ok (createEntry hooks allocation item.key value htab flag hval idx)

def hdeleteR (hooks : Hooks) (key : CString) (htab : HSearchData) (flag : Int) :
    Exec (Nat × HSearchData) :=
  match hsearchR hooks .succeeds ⟨key, none⟩ .find htab 0 with
  | .error fault => .error fault
  | .ok (found, htab) =>
      if found.ret = 0 then
        .ok (0, htab)
      else
        let entry := (htab.table found.ret).entry
        bif hooks.rejects entry none .delete flag then
          .ok (0, htab)
        else
          match hooks.runCallback htab entry key none .delete flag with
          | none => .ok (0, htab)
          | some htab => .ok (1, hdelete htab (UInt32.ofNat found.ret))

end UBootV210.Environment
