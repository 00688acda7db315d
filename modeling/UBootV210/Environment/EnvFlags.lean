import UBootV210.Environment.Getenv
import UBootV210.Environment.EnvAttr

/-! # Flags and callbacks of variables

An embedding of `common/env_flags.c` and `common/env_callback.c`. Both files look
up a new variable in an attribute list, and both go through all variables when
the list itself changes. -/

namespace UBootV210.Environment

/-- `env_flags_vartype_rep`, that is `sdxbim`. -/
def envFlagsVartypeRep : List UInt8 := [115, 100, 120, 98, 105, 109]

/-- `env_flags_varaccess_rep`, that is `aroc`. -/
def envFlagsVaraccessRep : List UInt8 := [97, 114, 111, 99]

def preventDelete : Nat := 0x08
def preventCreate : Nat := 0x10
def preventOverwr : Nat := 0x20
def preventNondefOverwr : Nat := 0x40

def envFlagsVaraccessMask : List Nat :=
  [0, preventDelete ||| preventCreate ||| preventOverwr, preventDelete ||| preventOverwr,
    preventDelete ||| preventNondefOverwr]

/-- An unknown type is taken for a string. -/
def envFlagsParseVartype (flags : CString) : Nat :=
  match flags.bytes[0]? with
  | none => 0
  | some type => (envFlagsVartypeRep.idxOf? type).getD 0

/-- An unknown access method is taken for any access. -/
def envFlagsParseVaraccess (flags : CString) : Nat :=
  match flags.bytes[1]? with
  | none => 0
  | some access => (envFlagsVaraccessRep.idxOf? access).getD 0

def envParseFlagsToBin (flags : CString) : Int :=
  ((envFlagsParseVartype flags &&& 7) |||
    envFlagsVaraccessMask.getD (envFlagsParseVaraccess flags) 0 : Nat)

def onFlagsId : CallbackId := 0

def onCallbacksId : CallbackId := 1

def flagsVar : CString := .ofBytes [46, 102, 108, 97, 103, 115]

def callbacksVar : CString := .ofBytes [46, 99, 97, 108, 108, 98, 97, 99, 107, 115]

def envBufSize : Nat := 32

/-- What the board configuration and the linker decide. The other callbacks do not
touch the table; they only accept or refuse a value. -/
structure EnvConfig where
  flagsListStatic : CString
  callbackListStatic : CString
  findEnvCallback : CString → Option CallbackId
  changeOk : Option (Entry → Option CString → EnvOp → Int → Bool)
  accepts : CallbackId → CString → Option CString → EnvOp → Int → Bool
  /-- The memory in front of a list. -/
  front : CString → List UInt8
  envSize : Nat
  /-- What `env_get_char` reads before the import: the default environment. -/
  image : List UInt8
  scanned : ∀ var ∈ [flagsVar, callbacksVar],
    Exec.Returns (getenvF envSize image var envBufSize) fun _ => True

section

variable (config : EnvConfig)

def attrLookup (list name : CString) : Option CString :=
  match envAttrLookup (config.front list) (some list) name with
  | .ok (0, attributes) => attributes
  | _ => none

/-- A lookup in the list of the environment, and only if that fails in the static one. -/
def listLookup (static : CString) (list : Option CString) (name : CString) : Option CString :=
  (list.bind fun list => attrLookup config list name).or (attrLookup config static name)

def envFlagsLookup (flagsList : Option CString) (name : CString) : Option CString :=
  listLookup config config.flagsListStatic flagsList name

/-- `env_flags_init`, given the list that `flags_list` points to. -/
def envFlagsInit (flagsList : Option CString) (entry : Entry) : Int :=
  match entry.key.bind (envFlagsLookup config flagsList) with
  | none => entry.flags
  | some flags => if flags.bytes = [] then entry.flags else envParseFlagsToBin flags

/-- `env_callback_init`, given the list that `callback_list` points to. -/
def envCallbackInit (callbackList : Option CString) (entry : Entry) : Option CallbackId :=
  match entry.key.bind (listLookup config config.callbackListStatic callbackList) with
  | none => entry.callback
  | some name =>
      if name.bytes = [] then entry.callback else
        (config.findEnvCallback name).or entry.callback

end

def hwalkLoop (callback : Entry → Int × Entry) : Nat → Nat → HSearchData → Int × HSearchData
  | 0, _, htab => (0, htab)
  | count + 1, index, htab =>
      let slot := htab.table index
      if 0 < slot.used then
        let (retval, entry) := callback slot.entry
        let htab := { htab with table := Function.update htab.table index { slot with entry } }
        if retval ≠ 0 then (retval, htab) else hwalkLoop callback count (index + 1) htab
      else
        hwalkLoop callback count (index + 1) htab

def hwalkR (htab : HSearchData) (callback : Entry → Int × Entry) : Int × HSearchData :=
  hwalkLoop callback htab.size.toNat 1 htab

/-- An attribute that a list sets: how it is cleared, and how it is assigned. -/
structure ListedAttribute where
  static : CString
  clear : Attributes → Attributes
  assign : Option CString → Attributes → Attributes

namespace ListedAttribute

variable (kind : ListedAttribute)

def clearEntry (entry : Entry) : Int × Entry :=
  (0, { entry with toAttributes := kind.clear entry.toAttributes })

/-- `set_flags`, `set_callback`: the variable is looked up in the table. FIND runs no
hook. -/
def setEntry (name : CString) (value : Option CString) (htab : HSearchData) :
    Exec HSearchData := do
  let (found, _) ← hsearchR permissiveHooks .succeeds ⟨name, none⟩ .find htab 0
  match found.retval with
  | none => .ok htab
  | some index =>
      let slot := htab.table index
      .ok { htab with
        table := Function.update htab.table index
          { slot with
            entry := { slot.entry with
              toAttributes := kind.assign value slot.entry.toAttributes } } }

def walkTable (list : Option CString) (htab : Exec HSearchData) : Exec HSearchData :=
  (envAttrWalk (fun name value htab => (0, htab >>= kind.setEntry name value)) list htab).2

/-- `on_flags`, `on_callbacks`. -/
def onChange (value : Option CString) (htab : HSearchData) : Exec HSearchData :=
  kind.walkTable value (kind.walkTable (some kind.static) (.ok (hwalkR htab kind.clearEntry).2))

def assignStep (key : Option CString) (name : CString) (value : Option CString)
    (attributes : Attributes) : Int × Attributes :=
  (0, if key = some name then kind.assign value attributes else attributes)

def walkOf (key : Option CString) (list : Option CString) (attributes : Attributes) :
    Attributes :=
  (envAttrWalk (kind.assignStep key) list attributes).2

def onChangeOf (value : Option CString) (entry : Entry) : Attributes :=
  kind.walkOf entry.key value
    (kind.walkOf entry.key (some kind.static) (kind.clear entry.toAttributes))

end ListedAttribute

def flagsOfValue : Option CString → Int
  | none => 0
  | some value => if value.bytes = [] then 0 else envParseFlagsToBin value

def flagsAttribute (config : EnvConfig) : ListedAttribute where
  static := config.flagsListStatic
  clear attributes := { attributes with flags := 0 }
  assign value attributes := { attributes with flags := flagsOfValue value }

def clearFlags (config : EnvConfig) : Entry → Int × Entry := (flagsAttribute config).clearEntry

def setFlags (config : EnvConfig) : CString → Option CString → HSearchData → Exec HSearchData :=
  (flagsAttribute config).setEntry

def onFlags (config : EnvConfig) : Option CString → HSearchData → Exec HSearchData :=
  (flagsAttribute config).onChange

/-- An unknown callback leaves the old one in place. -/
def callbackAttribute (config : EnvConfig) : ListedAttribute where
  static := config.callbackListStatic
  clear attributes := { attributes with callback := none }
  assign value attributes :=
    match value with
    | none => { attributes with callback := none }
    | some name =>
        if name.bytes = [] then { attributes with callback := none }
        else { attributes with callback := (config.findEnvCallback name).or attributes.callback }

def clearCallback (config : EnvConfig) : Entry → Int × Entry :=
  (callbackAttribute config).clearEntry

def setCallback (config : EnvConfig) :
    CString → Option CString → HSearchData → Exec HSearchData :=
  (callbackAttribute config).setEntry

def onCallbacks (config : EnvConfig) : Option CString → HSearchData → Exec HSearchData :=
  (callbackAttribute config).onChange

/-- A static pointer to the value of a list variable, which is set once. Before the import
`getenv` returns the address of `env_buf`. -/
inductive CachedList
  | unread
  | null
  | text (list : CString)
  | envBuf
  | freed
  deriving DecidableEq

namespace CachedList

/-- The list that is read through the pointer, given what `getenv` returns and what is in
memory that may have changed. -/
def read (cached : CachedList) (value : Option CString) (memory : CString) : Option CString :=
  match cached with
  | unread => value
  | null => none
  | text list => some list
  | envBuf | freed => some memory

/-- `first_call`: the pointer is set when a variable is created. -/
def afterCreate (cached : CachedList) (ready : Bool) (value : Option CString) : CachedList :=
  match cached with
  | unread =>
      match value with
      | none => null
      | some list => bif ready then text list else envBuf
  | other => other

def afterFree (cached : CachedList) : CachedList :=
  match cached with
  | text _ => freed
  | other => other

end CachedList

/-- `getenv`: before the import it is restricted to `env_buf`, and an empty value is none. -/
def getenvWhen (config : EnvConfig) (ready : Bool) (htab : HSearchData) (name : CString) :
    Option CString :=
  bif ready then
    getenv htab name
  else
    match getenvF config.envSize config.image name envBufSize with
    | .error _ => none
    | .ok result => if 0 < result.ret then some (.ofBytes result.buf) else none

/-- An operation and what it finds outside of the table: `GD_FLG_ENV_READY`, and the texts
behind `callback_list` and `flags_list` if these point to `env_buf` or to freed memory. -/
structure EnvCall where
  operation : Operation
  ready : Bool
  behindCallbacks : CString
  behindFlags : CString

structure Session where
  htab : HSearchData
  flagsList : CachedList
  callbackList : CachedList

namespace Session

variable (config : EnvConfig)

def hooks (session : Session) (call : EnvCall) : Hooks where
  changeOk := config.changeOk
  envCallbackInit htab entry :=
    envCallbackInit config (session.callbackList.read
      (getenvWhen config call.ready htab callbacksVar) call.behindCallbacks) entry
  envFlagsInit htab entry :=
    envFlagsInit config (session.flagsList.read
      (getenvWhen config call.ready htab flagsVar) call.behindFlags) entry
  callback id name value op flag _ :=
    if id = onFlagsId then
      some ((flagsAttribute config).onChangeOf value)
    else if id = onCallbacksId then
      some ((callbackAttribute config).onChangeOf value)
    else
      bif config.accepts id name value op flag then some Entry.toAttributes else none

def cachedAfter (cached : CachedList) (var : CString) (ready : Bool)
    (before after : HSearchData) : Operation → CachedList
  | .find _ => cached
  | .delete key _ => if key = var then cached.afterFree else cached
  | .enter key _ _ _ =>
      if getenv before key = none then
        cached.afterCreate ready (getenvWhen config ready after var)
      else if key = var then
        cached.afterFree
      else
        cached

/-- An operation, with the pointers as they are after a success. -/
def next (session : Session) (call : EnvCall) : Exec (Observation × Session) :=
  (perform (session.hooks config call) session.htab call.operation).map fun result =>
    (result.1,
      { htab := result.2
        flagsList := cachedAfter config session.flagsList flagsVar call.ready session.htab
          result.2 call.operation
        callbackList := cachedAfter config session.callbackList callbacksVar call.ready
          session.htab result.2 call.operation })

def Step (session : Session) (call : EnvCall) (after : Session) : Prop :=
  ∃ observed, session.next config call = .ok (observed, after) ∧ observed.ret ≠ 0

/-- A table without variables, before the first call of the two `init` functions. -/
def start (size : UInt32) : Session where
  htab := emptyTable size
  flagsList := .unread
  callbackList := .unread

end Session

end UBootV210.Environment
