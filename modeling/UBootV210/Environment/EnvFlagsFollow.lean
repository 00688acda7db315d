import UBootV210.Environment.EnvFlagsList

/-! # The flags of the variables follow `.flags`

The flags of every variable are those of the current list as long as new
variables find in the kept list what they would find in the current one. -/

namespace UBootV210.Environment

def Slot.DeadClear (slot : Slot) : Prop :=
  ¬ 0 < slot.used → slot.entry.toAttributes = ⟨none, 0⟩

def Slot.ValidKey (slot : Slot) : Prop :=
  0 < slot.used → ∀ key, slot.entry.key = some key → AttrName key.bytes

def Slot.FlagsFollow (config : EnvConfig) (list : Option CString) (slot : Slot) : Prop :=
  0 < slot.used → ∀ key, slot.entry.key = some key → slot.entry.flags = flagsFor config list key

variable {attributes : Entry → Attributes}

namespace HSearchData

def Everywhere (property : Slot → Prop) (htab : HSearchData) : Prop :=
  ∀ index, 1 ≤ index → index ≤ htab.size.toNat → property (htab.table index)

variable {config : EnvConfig} {htab : HSearchData} {list : Option CString} {property : Slot → Prop}

theorem Everywhere.setSlot (everywhere : htab.Everywhere property) (idx : UInt32)
    (holds : property slot) : (htab.setSlot idx slot).Everywhere property := by
  intro index lower upper
  by_cases at_ : index = idx.toNat
  · subst at_
    simpa [HSearchData.setSlot] using holds
  · simpa [HSearchData.setSlot, at_] using everywhere index lower upper

theorem Everywhere.setAttributes (everywhere : htab.Everywhere property)
    (kept : ∀ slot : Slot, 0 < slot.used → property slot → property { slot with
        entry := { slot.entry with toAttributes := attributes slot.entry } }) :
    (htab.setAttributes attributes).Everywhere property := by
  intro index lower upper
  rw [setAttributes_table]
  split
  case isTrue visited => exact kept _ visited.2.2 (everywhere index lower upper)
  · exact everywhere index lower upper

theorem flagsFollow_setAttributes (follows : htab.Everywhere (Slot.FlagsFollow config list))
    (kept : ∀ entry, (attributes entry).flags = entry.flags) :
    (htab.setAttributes attributes).Everywhere (Slot.FlagsFollow config list) :=
  follows.setAttributes fun slot _ holds used key hasKey =>
    (kept slot.entry).trans (holds used key hasKey)

theorem flagsFollow_onFlags (valid : htab.Everywhere Slot.ValidKey) :
    (htab.setAttributes ((flagsAttribute config).onChangeOf list)).Everywhere
      (Slot.FlagsFollow config list) := by
  intro index lower upper
  rw [setAttributes_table]
  split
  case isTrue visited =>
    intro used key hasKey
    exact onChangeOf_flags hasKey (valid index lower upper used key hasKey)
  case isFalse notVisited =>
    intro used
    exact absurd ⟨lower, upper, used⟩ notVisited

end HSearchData

/-! ## Callbacks -/

theorem ListedAttribute.walkOf_keeps {kind : ListedAttribute} {property : Attributes → Prop}
    (kept : ∀ value attributes, property attributes → property (kind.assign value attributes))
    (key list : Option CString) {attributes : Attributes} (holds : property attributes) :
    property (kind.walkOf key list attributes) := by
  have entryKeeps (entry : List UInt8) {attributes : Attributes} (holds : property attributes) :
      property (walkEntry (kind.assignStep key) entry attributes).2 := by
    rw [walkEntry]
    split
    · exact holds
    · rw [assignStep]
      split
      · exact kept _ _ holds
      · exact holds
  cases list with
  | none => exact holds
  | some list =>
    change property (walkEntries (kind.assignStep key) (attrEntries list.bytes) attributes).2
    induction attrEntries list.bytes generalizing attributes with
    | nil => exact holds
    | cons entry entries induction =>
      rw [kind.walkEntries_assignStep]
      exact induction (entryKeeps entry holds)

theorem callbackAttribute_onChangeOf_flags (config : EnvConfig) (value : Option CString)
    (entry : Entry) : ((callbackAttribute config).onChangeOf value entry).flags = entry.flags := by
  have kept (value : Option CString) (attributes : Attributes)
      (same : attributes.flags = entry.flags) :
      ((callbackAttribute config).assign value attributes).flags = entry.flags := by
    simp only [callbackAttribute]
    split
    · exact same
    · split
      · exact same
      · exact same
  apply ListedAttribute.walkOf_keeps kept
  apply ListedAttribute.walkOf_keeps kept
  rfl

variable {config : EnvConfig} {session : Session} {call : EnvCall}
  {htab called : HSearchData} {entry : Entry} {value : Option CString} {op : EnvOp} {flag : Int}

theorem Session.runCallback_cases
    (ran : (session.hooks config call).runCallback htab entry name value op flag = some called) :
    (entry.callback = some onFlagsId ∧
        called = htab.setAttributes ((flagsAttribute config).onChangeOf value)) ∨
      (entry.callback ≠ some onFlagsId ∧ ∃ attributes, called = htab.setAttributes attributes ∧
        ∀ stored, (attributes stored).flags = stored.flags) := by
  rw [Hooks.runCallback] at ran
  cases bound : entry.callback with
  | none =>
    rw [bound] at ran
    cases ran
    exact .inr ⟨by simp, _, htab.setAttributes_self.symm, fun _ => rfl⟩
  | some id =>
    rw [bound] at ran
    simp only [hooks] at ran
    by_cases isFlags : id = onFlagsId
    · rw [if_pos isFlags] at ran
      cases ran
      exact .inl ⟨congrArg some isFlags, rfl⟩
    · refine .inr ⟨fun same => isFlags (Option.some.inj same), ?_⟩
      rw [if_neg isFlags] at ran
      by_cases isCallbacks : id = onCallbacksId
      · rw [if_pos isCallbacks] at ran
        cases ran
        exact ⟨_, rfl, callbackAttribute_onChangeOf_flags config value⟩
      · rw [if_neg isCallbacks] at ran
        cases accepted : config.accepts id name value op flag with
        | false =>
          rw [accepted] at ran
          cases ran
        | true =>
          rw [accepted] at ran
          cases ran
          exact ⟨_, rfl, fun _ => rfl⟩

/-- The callback of `.flags` and of no other variable is `on_flags`. -/
def BindsFlags (callback : Option CallbackId) (key : CString) : Prop :=
  callback = some onFlagsId ↔ key = flagsVar

theorem Session.runCallback_follows
    (ran : (session.hooks config call).runCallback htab entry key value op flag = some called)
    (binds : BindsFlags entry.callback key) (valid : htab.Everywhere Slot.ValidKey)
    (follows : key ≠ flagsVar → htab.Everywhere (Slot.FlagsFollow config list)) :
    called.Everywhere (Slot.FlagsFollow config (if key = flagsVar then value else list)) := by
  rcases runCallback_cases ran with ⟨bound, rfl⟩ | ⟨unbound, attributes, rfl, kept⟩
  · rw [if_pos (binds.mp bound)]
    exact HSearchData.flagsFollow_onFlags valid
  · have other : key ≠ flagsVar := fun same => unbound (binds.mpr same)
    rw [if_neg other]
    exact HSearchData.flagsFollow_setAttributes (follows other) kept

theorem Session.runCallback_keeps
    (ran : (session.hooks config call).runCallback htab entry key value op flag = some called)
    (clear : htab.Everywhere Slot.DeadClear) (valid : htab.Everywhere Slot.ValidKey) :
    called.Everywhere Slot.DeadClear ∧ called.Everywhere Slot.ValidKey := by
  obtain ⟨attributes, rfl⟩ : ∃ attributes, called = htab.setAttributes attributes := by
    rcases runCallback_cases ran with ⟨-, made⟩ | ⟨-, attributes, made, -⟩
    · exact ⟨_, made⟩
    · exact ⟨attributes, made⟩
  exact ⟨clear.setAttributes fun _ used _ dead => absurd used dead,
    valid.setAttributes fun _ _ holds => holds⟩

theorem Represents.getenv (represents : Represents htab contents) (name : CString) :
    getenv htab name = contents name := by
  obtain ⟨ret, performed, -⟩ := represents.find permissiveHooks name
  rw [Environment.getenv, performed]

/-- The table holds some contents, and its flags follow the value of `.flags`. -/
structure HSearchData.Consistent (config : EnvConfig) (htab : HSearchData) (contents : Contents) :
    Prop where
  represents : Represents htab contents
  deadClear : htab.Everywhere Slot.DeadClear
  validKey : htab.Everywhere Slot.ValidKey
  follows : htab.Everywhere (Slot.FlagsFollow config (contents flagsVar))

/-- The list, and the one that is kept, are well formed. -/
structure Session.Consistent (config : EnvConfig) (session : Session) (contents : Contents) :
    Prop extends session.htab.Consistent config contents where
  formed : ∀ value, contents flagsVar = some value → WellFormedList value
  cached : ∀ text, session.flagsList = .text text → WellFormedList text

theorem Session.start_consistent (valid : ValidSize size) :
    (Session.start size).Consistent config fun _ => none where
  represents := emptyTable_represents valid
  deadClear _ _ _ _ := rfl
  validKey _ _ _ used := absurd used (Int.lt_irrefl 0)
  follows _ _ _ used := absurd used (Int.lt_irrefl 0)
  formed _ impossible := by cases impossible
  cached _ impossible := by cases impossible

def newEntry (key value : CString) : Entry where
  callback := none
  flags := 0
  key := some key
  data := some value

/-- What `getenv` returns while `key` is created. -/
def Session.valueDuring (config : EnvConfig) (session : Session) (ready : Bool)
    (key value var : CString) : Option CString :=
  if ready ∧ var = key then some value else getenvWhen config ready session.htab var

/-- The list that `env_flags_init` knows. -/
def Session.knownList (config : EnvConfig) (session : Session) (call : EnvCall) :
    Option CString :=
  session.flagsList.read (getenvWhen config call.ready session.htab flagsVar) call.behindFlags

/-- A variable can be created with the right flags: there is room for it, the name can
stand in a list, the pointers of the two `init` functions do not dangle, `.flags` and no
other variable gets the callback `on_flags`, and the list that `env_flags_init` knows has
the same last entry for the name as the current one. If that list is in `env_buf`, it is
well formed. -/
structure Session.MayCreate (config : EnvConfig) (session : Session) (call : EnvCall)
    (key value : CString) : Prop where
  room : session.htab.HasRoom key
  valid : AttrName key.bytes
  callbackList : session.callbackList ≠ .freed
  flagsList : session.flagsList ≠ .freed
  binds : BindsFlags (envCallbackInit config (session.callbackList.read
      (session.valueDuring config call.ready key value callbacksVar) call.behindCallbacks)
      (newEntry key value)) key
  formed : key ≠ flagsVar →
    session.flagsList = .envBuf ∨ session.flagsList = .unread ∧ call.ready = false →
      ∀ text, session.knownList config call = some text → WellFormedList text
  current : key ≠ flagsVar →
    listed (session.knownList config call) key = listed (getenv session.htab flagsVar) key

def Session.Binds (session : Session) (key : CString) : Prop :=
  ∀ index, 1 ≤ index → index ≤ session.htab.size.toNat →
    0 < (session.htab.table index).used → (session.htab.table index).entry.key = some key →
    BindsFlags (session.htab.table index).entry.callback key

def Session.Admits (config : EnvConfig) (session : Session) (call : EnvCall) : Prop :=
  match call.operation with
  | .enter key value _ _ =>
      (getenv session.htab key = none → session.MayCreate config call key value) ∧ session.Binds key
  | .delete key _ => session.Binds key
  | .find _ => True

/-! ## The operations -/

variable {observed : Observation} {next : HSearchData}

section

variable {config : EnvConfig} {session : Session} {call : EnvCall}
  {contents : Contents} {key value old : CString} {flag : Int} {allocation : Allocation}

theorem update_flagsVar : Function.update contents key data flagsVar =
      if key = flagsVar then data else contents flagsVar := by
  rw [Function.update_apply]
  exact if_congr eq_comm rfl rfl

theorem Session.Consistent.after_callback (consistent : session.Consistent config contents)
    (binds : session.Binds key) {idx : UInt32} (lower : 1 ≤ idx.toNat)
    (upper : idx.toNat ≤ session.htab.size.toNat)
    (live : session.htab.cells idx.toNat = .live key old)
    (ran : (session.hooks config call).runCallback session.htab
      (session.htab.table idx.toNat).entry key data op flag = some called) :
    called.Everywhere Slot.DeadClear ∧ called.Everywhere Slot.ValidKey ∧ called.Everywhere
        (Slot.FlagsFollow config (Function.update contents key data flagsVar)) := by
  have holds := consistent.represents.invariant.holds lower upper live
  have used := holds.used_pos consistent.represents.invariant.validSize.large
  have kept := runCallback_keeps ran consistent.deadClear consistent.validKey
  refine ⟨kept.1, kept.2, ?_⟩
  rw [update_flagsVar]
  exact runCallback_follows ran (binds _ lower upper used holds.key) consistent.validKey
    fun _ => consistent.follows

theorem Session.Consistent.overwrite (consistent : session.Consistent config contents)
    (found : contents key = some old) (binds : session.Binds key)
    (performed : perform (session.hooks config call) session.htab
      (.enter key value flag allocation) = .ok (observed, next)) (success : observed.ret ≠ 0) :
    next.Consistent config (Function.update contents key (some value)) := by
  have invariant := consistent.represents.invariant
  obtain ⟨idx, lower, upper, live, searched⟩ := invariant.enter_stored
    (session.hooks config call) allocation flag value
    ((consistent.represents.stores key old).mpr found)
  rw [perform, searched] at performed
  cases performed
  rcases overwriteEntry_cases (session.hooks config call) allocation key value session.htab flag
    idx with ⟨_, errno, outcome⟩ | ⟨_, called, ran, outcome⟩ <;> rw [outcome] at success ⊢
  · exact absurd rfl success
  cases available : allocation.data <;> rw [available] at success
  · exact absurd rfl success
  have same := Hooks.runCallback_same ran
  obtain ⟨clear, valid, follows⟩ := consistent.after_callback binds lower upper live ran
  have upperCalled : idx.toNat ≤ called.size.toNat := same.size ▸ upper
  exact ⟨(consistent.represents.of_same same).withData value lower upperCalled (same.cells ▸ live),
    clear.setSlot idx (clear _ lower upperCalled), valid.setSlot idx (valid _ lower upperCalled),
    follows.setSlot idx (follows _ lower upperCalled)⟩

theorem Session.Consistent.delete (consistent : session.Consistent config contents)
    (found : contents key = some old) (binds : session.Binds key)
    (performed : perform (session.hooks config call) session.htab (.delete key flag) =
      .ok (observed, next)) (success : observed.ret ≠ 0) :
    next.Consistent config (Function.update contents key none) := by
  obtain ⟨idx, lower, upper, live, ⟨_, outcome⟩ | ⟨_, called, ran, outcome⟩⟩ :=
    consistent.represents.invariant.hdeleteR_cases (session.hooks config call) flag
      ((consistent.represents.stores key old).mpr found) <;>
    rw [perform, outcome] at performed <;> cases performed
  · exact absurd rfl success
  · have same := Hooks.runCallback_same ran
    obtain ⟨clear, valid, follows⟩ := consistent.after_callback binds lower upper live ran
    exact ⟨(consistent.represents.of_same same).delete lower (same.size ▸ upper)
      (same.cells ▸ live),
      clear.setSlot idx fun _ => rfl, valid.setSlot idx fun used => absurd used (by simp),
      follows.setSlot idx fun used => absurd used (by simp)⟩

section

variable {idx hval : UInt32} (consistent : session.htab.Consistent config contents)
  (room : session.htab.HasRoom key) (stops : session.htab.StopsAt key idx)
  (hash : hashValue session.htab.size key = hval)

include consistent room stops hash

theorem createTarget_slot : createdSlot .succeeds key value hval
      (session.htab.table (createTarget session.htab idx hval).toNat) =
    { used := hval.toNat, entry := newEntry key value } := by
  have invariant := consistent.represents.invariant
  obtain ⟨count, inside, reached, notLive, -⟩ := invariant.createTarget_of_room room stops
  have bounds := invariant.validSize.probeAt_bounds key count
  rw [hash] at reached notLive
  rw [reached] at bounds
  have dead : ¬ 0 < (session.htab.table (createTarget session.htab idx hval).toNat).used := by
    rw [← (invariant.sound _ bounds.1 bounds.2).isLive_iff invariant.validSize.large]
    intro live
    rw [HSearchData.cells] at notLive
    rw [notLive] at live
    cases live
  have clear := consistent.deadClear _ bounds.1 bounds.2 dead
  simp only [createdSlot, clear]
  rfl

theorem offeredTable_eq {hooks : Hooks}
    (made : createdTable .succeeds key value session.htab idx hval = created) :
    ∃ callback flags called, called.Same created ∧
      callback = hooks.envCallbackInit created (newEntry key value) ∧
      flags = hooks.envFlagsInit called { newEntry key value with callback := callback } ∧
      offeredTable hooks key value session.htab idx hval =
        (session.htab.setSlot (createTarget session.htab idx hval)
          { used := hval.toNat,
            entry := { newEntry key value with callback := callback, flags := flags } }
          ).withFilled (session.htab.filled + 1) := by
  subst made
  have slot := @createTarget_slot _ _ _ _ value _ _ consistent room stops hash
  have held : (createdTable .succeeds key value session.htab idx hval).table
      (createTarget session.htab idx hval).toNat =
        { used := hval.toNat, entry := newEntry key value } := by
    rw [createdTable, slot]
    exact Function.update_self ..
  refine ⟨_, _, (createdTable .succeeds key value session.htab idx hval).setSlot
      (createTarget session.htab idx hval)
      { used := hval.toNat,
        entry := { newEntry key value with
          callback := hooks.envCallbackInit
            (createdTable .succeeds key value session.htab idx hval) (newEntry key value) } },
    ?same, rfl, rfl, ?offered⟩
  case offered =>
    rw [offeredTable, initAttributes, held, HSearchData.setSlot_setSlot]
    change ((session.htab.setSlot _ _).setSlot _ _).withFilled _ = _
    rw [HSearchData.setSlot_setSlot]
    rfl
  case same =>
    refine ⟨rfl, rfl, fun index => ?_⟩
    by_cases at_ : index = (createTarget session.htab idx hval).toNat
    · subst at_
      rw [held]
      simp only [HSearchData.setSlot, Function.update_self]
      exact ⟨rfl, rfl, rfl⟩
    · simp only [HSearchData.setSlot, ne_eq, at_, not_false_eq_true, Function.update_of_ne]
      exact ⟨rfl, rfl, rfl⟩

end

section

variable (consistent : session.Consistent config contents)
include consistent

theorem Session.Consistent.formed_known (may : session.MayCreate config call key value)
    (other : key ≠ flagsVar) (text : CString) (known : session.knownList config call = some text) :
    WellFormedList text := by
  cases kept : session.flagsList with
  | unread =>
    cases ready : call.ready with
    | false => exact may.formed other (.inr ⟨kept, ready⟩) text known
    | true =>
      rw [knownList, kept, ready, CachedList.read, getenvWhen, cond_true,
        consistent.represents.getenv] at known
      exact consistent.formed text known
  | null =>
    rw [knownList, kept] at known
    cases known
  | text list =>
    rw [knownList, kept] at known
    cases known
    exact consistent.cached _ kept
  | envBuf => exact may.formed other (.inl kept) text known
  | freed => exact absurd kept may.flagsList

theorem Session.Consistent.newFlags (guarded : config.Guarded)
    (static : WellFormedList config.flagsListStatic)
    (may : session.MayCreate config call key value) (other : key ≠ flagsVar)
    (represents : Represents called (Function.update contents key (some value))) :
    (session.hooks config call).envFlagsInit called
        { newEntry key value with callback := callback } =
      flagsFor config (contents flagsVar) key := by
  have same : getenvWhen config call.ready called flagsVar =
      getenvWhen config call.ready session.htab flagsVar := by
    rw [getenvWhen, getenvWhen, represents.getenv, consistent.represents.getenv, update_flagsVar,
      if_neg other]
  have current := may.current other
  rw [consistent.represents.getenv] at current
  change envFlagsInit config (session.flagsList.read
    (getenvWhen config call.ready called flagsVar) call.behindFlags) _ = _
  rw [same]
  change envFlagsInit config (session.knownList config call) _ = _
  rw [envFlagsInit_eq guarded static (consistent.formed_known may other) rfl may.valid rfl,
    flagsFor, flagsFor, current]

theorem Session.Consistent.newCallback (may : session.MayCreate config call key value)
    (represents : Represents created (Function.update contents key (some value))) :
    BindsFlags ((session.hooks config call).envCallbackInit created (newEntry key value))
      key := by
  have during : getenvWhen config call.ready created callbacksVar =
      session.valueDuring config call.ready key value callbacksVar := by
    rw [Session.valueDuring, getenvWhen, getenvWhen, represents.getenv,
      consistent.represents.getenv, Function.update_apply]
    cases call.ready with
    | false => simp
    | true => simp
  change BindsFlags (envCallbackInit config (session.callbackList.read
    (getenvWhen config call.ready created callbacksVar) call.behindCallbacks) _) key
  rw [during]
  exact may.binds

theorem Session.Consistent.offered (guarded : config.Guarded)
    (static : WellFormedList config.flagsListStatic) (found : contents key = none)
    (may : session.MayCreate config call key value)
    (notFull : session.htab.filled ≠ session.htab.size) (stops : session.htab.StopsAt key idx)
    (hash : hashValue session.htab.size key = hval) {offered : HSearchData}
    (made : offered = offeredTable (session.hooks config call) key value session.htab idx hval) :
    Represents offered (Function.update contents key (some value)) ∧
      offered.Everywhere Slot.DeadClear ∧ offered.Everywhere Slot.ValidKey ∧
      BindsFlags (offered.table (createTarget session.htab idx hval).toNat).entry.callback key ∧
      (key ≠ flagsVar → offered.Everywhere (Slot.FlagsFollow config (contents flagsVar))) := by
  have created := consistent.represents.createdTable value found notFull may.room stops
  have large := Nat.le_of_succ_le consistent.represents.invariant.validSize.large
  have bounds := hashValue_bounds large key
  rw [hash] at created bounds
  obtain ⟨callback, flags, called, same, rfl, rfl, table⟩ := @offeredTable_eq _ _ _ key value idx
    hval consistent.toConsistent may.room stops hash _ (session.hooks config call) rfl
  have represents : Represents offered (Function.update contents key (some value)) := by
    rw [made]
    exact created.of_same (initAttributes_same ..)
  rw [table] at made
  refine ⟨represents, ?_, ?_, ?_, ?_⟩
  · rw [made]
    refine consistent.deadClear.setSlot _ fun dead => absurd ?_ dead
    dsimp only
    omega
  · rw [made]
    refine consistent.validKey.setSlot _ fun _ other hasKey => ?_
    cases hasKey
    exact may.valid
  · have entry : (offered.table (createTarget session.htab idx hval).toNat).entry.callback = _ :=
      congrArg (fun slot => slot.entry.callback)
        ((congrFun (congrArg HSearchData.table made) _).trans (Function.update_self ..))
    rw [entry]
    exact consistent.newCallback may created
  · intro other
    rw [made]
    refine consistent.follows.setSlot _ fun _ stored hasKey => ?_
    cases hasKey
    exact consistent.newFlags guarded static may other (created.of_same same)

theorem Session.Consistent.create (guarded : config.Guarded)
    (static : WellFormedList config.flagsListStatic) (found : contents key = none)
    (may : session.MayCreate config call key value)
    (performed : perform (session.hooks config call) session.htab
      (.enter key value flag allocation) = .ok (observed, next)) (success : observed.ret ≠ 0) :
    next.Consistent config (Function.update contents key (some value)) := by
  have invariant := consistent.represents.invariant
  have absent := consistent.represents.absent_iff.mpr found
  obtain ⟨idx, stops, searched⟩ := invariant.enter_absent
    (session.hooks config call) allocation flag value absent
  rw [perform, searched] at performed
  cases performed
  have notFull : session.htab.filled ≠ session.htab.size := by
    intro full
    rw [createEntry_full _ _ _ _ _ _ _ _ full] at success
    exact success rfl
  rcases createEntry_cases (session.hooks config call) allocation key value session.htab flag idx
    (hashValue session.htab.size key) notFull
    with ⟨_, outcome⟩ | ⟨rfl, ⟨_, errno, outcome⟩ | ⟨_, next, ran, outcome⟩⟩ <;>
    rw [outcome] at success ⊢
  · exact absurd rfl success
  · exact absurd rfl success
  obtain ⟨represents, clear, valid, binds, follows⟩ :=
    consistent.offered guarded static found may notFull stops rfl rfl
  have kept := runCallback_keeps ran clear valid
  refine ⟨represents.of_same (Hooks.runCallback_same ran), kept.1, kept.2, ?_⟩
  rw [update_flagsVar]
  exact runCallback_follows ran binds valid follows

end

end

end UBootV210.Environment
