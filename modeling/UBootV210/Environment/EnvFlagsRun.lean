import UBootV210.Environment.EnvFlagsFollow

/-! # Runs of environment operations

In a run whose new variables all find the current list, the flags of every variable
follow `.flags`. On this board a list that is set after the first variable is never
found. -/

namespace UBootV210.Environment

def Operation.WellFormed : Operation → Prop
  | .enter key value _ _ => key = flagsVar → WellFormedList value
  | _ => True

def Session.FormedStep (config : EnvConfig) (session : Session) (call : EnvCall)
    (after : Session) : Prop :=
  session.Step config call after ∧ call.operation.WellFormed

/-- A step that creates variables only where they get the right flags. -/
def Session.AdmittedStep (config : EnvConfig) (session : Session) (call : EnvCall)
    (after : Session) : Prop :=
  session.FormedStep config call after ∧ session.Admits config call

section

variable {config : EnvConfig} {session : Session} {contents : Contents}

theorem CachedList.afterFree_ne_text (cached : CachedList) (text : CString) :
    cached.afterFree ≠ .text text := by
  cases cached with
  | _ => simp [afterFree]

theorem CachedList.formed_afterCreate {cached : CachedList}
    (formed : ∀ text, cached = .text text → WellFormedList text)
    (current : ready = true → ∀ text, value = some text → WellFormedList text) (text : CString)
    (kept : cached.afterCreate ready value = .text text) : WellFormedList text := by
  cases cached with
  | text list => exact formed text kept
  | unread =>
    cases value with
    | none => cases kept
    | some list =>
      cases ready with
      | false => cases kept
      | true =>
        cases kept
        exact current rfl _ rfl
  | null => cases kept
  | envBuf => cases kept
  | freed => cases kept

theorem Session.Consistent.formed_update (consistent : session.Consistent config contents)
    (wellFormed : key = flagsVar → WellFormedList value) (text : CString)
    (current : Function.update contents key (some value) flagsVar = some text) :
    WellFormedList text := by
  rw [update_flagsVar] at current
  split at current
  case isTrue same =>
    cases current
    exact wellFormed same
  · exact consistent.formed text current

theorem Session.Consistent.step (consistent : session.Consistent config contents)
    (guarded : config.Guarded) (static : WellFormedList config.flagsListStatic)
    {call : EnvCall} {after : Session} (step : session.AdmittedStep config call after) :
    ∃ contents, after.Consistent config contents := by
  obtain ⟨⟨⟨observed, stepped, success⟩, wellFormed⟩, admits⟩ := step
  rw [Session.next] at stepped
  rw [Session.Admits] at admits
  obtain ⟨result, performed, same⟩ := Exec.map_eq_ok stepped
  cases same
  cases operation : call.operation with
  | find key =>
    rw [operation] at performed
    obtain ⟨ret, outcome, -⟩ := consistent.represents.find (session.hooks config call) key
    cases performed.symm.trans outcome
    exact ⟨contents, consistent.toConsistent, consistent.formed, consistent.cached⟩
  | delete key flag =>
    rw [operation] at performed admits
    cases found : contents key with
    | none =>
      have outcome := consistent.represents.delete_absent (session.hooks config call) flag found
      cases performed.symm.trans outcome
      exact absurd rfl success
    | some old =>
      refine ⟨_, consistent.delete found admits performed success, ?_, ?_⟩
      · intro text current
        rw [update_flagsVar] at current
        split at current
        · cases current
        · exact consistent.formed text current
      · intro text kept
        dsimp only [Session.cachedAfter] at kept
        split at kept
        · exact absurd kept (CachedList.afterFree_ne_text _ _)
        · exact consistent.cached text kept
  | enter key value flag allocation =>
    rw [operation] at performed wellFormed admits
    have formed := consistent.formed_update wellFormed
    cases found : contents key with
    | none =>
      have missing : getenv session.htab key = none := by
        rw [consistent.represents.getenv, found]
      have table := consistent.create guarded static found (admits.1 missing) performed success
      refine ⟨_, table, formed, fun text kept => ?_⟩
      dsimp only [Session.cachedAfter] at kept
      rw [if_pos missing] at kept
      refine CachedList.formed_afterCreate consistent.cached ?_ text kept
      intro ready text current
      rw [ready, getenvWhen, cond_true, table.represents.getenv] at current
      exact formed text current
    | some old =>
      have present : ¬ getenv session.htab key = none := by
        rw [consistent.represents.getenv, found]
        exact Option.some_ne_none old
      refine ⟨_, consistent.overwrite found admits.2 performed success, formed,
        fun text kept => ?_⟩
      dsimp only [Session.cachedAfter] at kept
      rw [if_neg present] at kept
      split at kept
      · exact absurd kept (CachedList.afterFree_ne_text _ _)
      · exact consistent.cached text kept

end

theorem Session.exists_consistent (guarded : config.Guarded)
    (static : WellFormedList config.flagsListStatic) (valid : ValidSize size)
    (run : Run (Session.AdmittedStep config) (Session.start size) trace last) :
    ∃ contents, last.Consistent config contents := by
  refine @Run.invariant _ _ _ (fun session => ∃ contents, session.Consistent config contents)
    ?_ _ _ _ run ⟨_, Session.start_consistent valid⟩
  rintro first call next step ⟨contents, consistent⟩
  exact consistent.step guarded static step

/-! ## This board -/

/-- The lists of the board: `ethaddr:ma,`, and the callbacks of `.callbacks`, `.flags`,
`baudrate`, `bootfile`, `loadaddr`, `stdin`, `stdout` and `stderr`. Of the default environment
`bootcmd`, `bootdelay` and `baudrate` are taken; no variable of it is a list. -/
def smdkv210Env : EnvConfig where
  flagsListStatic := .ofBytes [101, 116, 104, 97, 100, 100, 114, 58, 109, 97, 44]
  callbackListStatic := .ofBytes
    [46, 99, 97, 108, 108, 98, 97, 99, 107, 115, 58, 99, 97, 108, 108, 98, 97, 99, 107, 115,
     44, 46, 102, 108, 97, 103, 115, 58, 102, 108, 97, 103, 115, 44, 98, 97, 117, 100, 114,
     97, 116, 101, 58, 98, 97, 117, 100, 114, 97, 116, 101, 44, 98, 111, 111, 116, 102, 105,
     108, 101, 58, 98, 111, 111, 116, 102, 105, 108, 101, 44, 108, 111, 97, 100, 97, 100, 100,
     114, 58, 108, 111, 97, 100, 97, 100, 100, 114, 44, 115, 116, 100, 105, 110, 58, 99, 111,
     110, 115, 111, 108, 101, 44, 115, 116, 100, 111, 117, 116, 58, 99, 111, 110, 115, 111,
     108, 101, 44, 115, 116, 100, 101, 114, 114, 58, 99, 111, 110, 115, 111, 108, 101, 44]
  findEnvCallback name :=
    if name = .ofBytes [102, 108, 97, 103, 115] then some onFlagsId
    else if name = .ofBytes [99, 97, 108, 108, 98, 97, 99, 107, 115] then some onCallbacksId
    else none
  changeOk := none
  accepts _ _ _ _ _ := true
  front _ := [0]
  envSize := 2 ^ 17
  image :=
    [98, 111, 111, 116, 99, 109, 100, 61, 114, 117, 110, 32, 117, 98, 105, 102, 115, 98, 111,
     111, 116, 0, 98, 111, 111, 116, 100, 101, 108, 97, 121, 61, 51, 0, 98, 97, 117, 100, 114,
     97, 116, 101, 61, 49, 49, 53, 50, 48, 48, 0, 0]
  scanned := by decide +kernel

theorem smdkv210Env_guarded : smdkv210Env.Guarded := fun _ => ⟨0, rfl⟩

def Session.succeed (config : EnvConfig) (session : Session) (call : EnvCall) :
    Except Errno Session :=
  match session.next config call with
  | .error _ => .error .EINVAL
  | .ok (observed, after) => if observed.ret ≠ 0 then .ok after else .error .EINVAL

theorem Session.step_of_succeed {config : EnvConfig} {session after : Session}
    (succeeded : session.succeed config call = .ok after) :
    session.Step config call after := by
  rw [succeed] at succeeded
  split at succeeded
  · cases succeeded
  · rename_i observed next stepped
    split at succeeded
    case isTrue success =>
      cases succeeded
      exact ⟨observed, stepped, success⟩
    · cases succeeded

/-- The value `foo:d` of `.flags`. -/
def fooDecimal : CString := .ofBytes [102, 111, 111, 58, 100]

def foo : CString := .ofBytes [102, 111, 111]

def setVariable (ready : Bool) (key value : CString) : EnvCall :=
  ⟨.enter key value 0 .succeeds, ready, .ofBytes [], .ofBytes []⟩

theorem fooDecimal_wellFormed : WellFormedList fooDecimal := by
  intro entry member
  have entries : attrEntries fooDecimal.bytes = [[102, 111, 111, 58, 100]] := by decide
  rw [entries, List.mem_singleton] at member
  subst member
  refine ⟨by decide +kernel, fun attributes has => ?_⟩
  cases has
  decide

instance (callback : Option CallbackId) (key : CString) : Decidable (BindsFlags callback key) :=
  inferInstanceAs (Decidable (_ ↔ _))

theorem smdkv210Env_static : WellFormedList smdkv210Env.flagsListStatic := by
  intro entry member
  have entries : attrEntries smdkv210Env.flagsListStatic.bytes =
      [[101, 116, 104, 97, 100, 100, 114, 58, 109, 97], []] := by decide
  rw [entries, List.mem_cons, List.mem_singleton] at member
  rcases member with rfl | rfl
  · refine ⟨by decide +kernel, fun attributes has => ?_⟩
    cases has
    decide
  · exact ⟨by decide +kernel, fun attributes has => by cases has⟩

def one : CString := .ofBytes [49]

/-- What the creation of a variable needs of a table of 67 slots whose first one is not used,
if `env_flags_init` knows no list. -/
def Session.Creatable (session : Session) (ready : Bool) (key value : CString) : Prop :=
  session.htab.size = 67 ∧ (session.htab.table 1).used = 0 ∧
    (∀ index < 68, (session.htab.table index).entry.key ≠ some key) ∧
    session.callbackList ≠ .freed ∧ session.flagsList ≠ .freed ∧
    BindsFlags (envCallbackInit smdkv210Env (session.callbackList.read
      (session.valueDuring smdkv210Env ready key value callbacksVar) (.ofBytes []))
      (newEntry key value)) key ∧
    session.knownList smdkv210Env (setVariable ready key value) = none ∧
    (key = flagsVar ∨ getenv session.htab flagsVar = none)

instance (session : Session) (ready : Bool) (key value : CString) :
    Decidable (session.Creatable ready key value) :=
  inferInstanceAs (Decidable (_ ∧ _))

theorem Session.Creatable.step {session after : Session}
    (creatable : session.Creatable ready key value) (valid : AttrName key.bytes)
    (formed : key = flagsVar → WellFormedList value)
    (succeeded : session.succeed smdkv210Env (setVariable ready key value) = .ok after) :
    session.AdmittedStep smdkv210Env (setVariable ready key value) after := by
  obtain ⟨size, unused, missing, callbackList, flagsList, binds, known, current⟩ := creatable
  refine ⟨⟨Session.step_of_succeed succeeded, formed⟩, ?_, ?_⟩
  · intro _
    exact {
      room := .inl ⟨1, le_rfl, by rw [size]; decide, unused⟩
      valid := valid
      callbackList := callbackList
      flagsList := flagsList
      binds := binds
      formed := by
        intro _ _ text knownText
        rw [known] at knownText
        cases knownText
      current := by
        intro other
        rw [known, current.resolve_left other] }
  · intro index _ upper _ hasKey
    rw [size] at upper
    change index ≤ 67 at upper
    exact absurd hasKey (missing index (by omega))

def importOperations : List EnvCall :=
  [setVariable false (.ofBytes [120]) one, setVariable false foo one]

/-- The session holds both variables of the import and can create `.flags`. -/
def Session.Imported (session : Session) : Prop :=
  (session.htab.Visited 37 ∧ (session.htab.table 37).entry.key = some foo) ∧
    (session.htab.Visited 2 ∧ (session.htab.table 2).entry.key = some (.ofBytes [120])) ∧
    session.Creatable true flagsVar fooDecimal ∧
    Exec.Returns (session.succeed smdkv210Env (setVariable true flagsVar fooDecimal)) fun last =>
      last.htab.Visited 37 ∧ (last.htab.table 37).entry.key = some foo ∧
        flagsFor smdkv210Env (getenv last.htab flagsVar) foo = 1

instance (session : Session) : Decidable session.Imported :=
  inferInstanceAs (Decidable (_ ∧ _))

theorem exists_imported : ∃ session,
    Run (Session.AdmittedStep smdkv210Env) (Session.start 67) importOperations session ∧
      session.Imported := by
  obtain ⟨middle, first, firstCreatable, secondCreatable, checks⟩ : ∃ middle,
      Session.succeed smdkv210Env (Session.start 67) (setVariable false (.ofBytes [120]) one) =
        .ok middle ∧ (Session.start 67).Creatable false (.ofBytes [120]) one ∧
      middle.Creatable false foo one ∧
      Exec.Returns (middle.succeed smdkv210Env (setVariable false foo one)) Session.Imported :=
    Exec.Returns.exists (by decide +kernel)
  obtain ⟨session, second, results⟩ := checks.exists
  have firstStep := firstCreatable.step ⟨by decide, by decide +kernel⟩
    (fun same => absurd same (by decide)) first
  have secondStep := secondCreatable.step ⟨by decide, by decide +kernel⟩
    (fun same => absurd same (by decide)) second
  exact ⟨session, .cons firstStep (.cons secondStep (.nil _)), results⟩

theorem validSize_67 : ValidSize 67 := by
  have prime : Nat.Prime 67 := by norm_num
  exact ⟨prime, by decide⟩

/-- In every run of admitted steps the flags of every live variable are those of the last
entry for its name in the current list, or else in the static list. -/
theorem flags_follow_list {config : EnvConfig} (guarded : config.Guarded)
    (static : WellFormedList config.flagsListStatic) {size : UInt32} (valid : ValidSize size)
    {trace : List EnvCall} {last : Session}
    (run : Run (Session.AdmittedStep config) (Session.start size) trace last) {index : Nat}
    {key : CString} (visited : last.htab.Visited index)
    (hasKey : (last.htab.table index).entry.key = some key) :
    (last.htab.table index).entry.flags = flagsFor config (getenv last.htab flagsVar) key := by
  obtain ⟨contents, consistent⟩ := Session.exists_consistent guarded static valid run
  rw [consistent.represents.getenv]
  exact consistent.follows index visited.1 visited.2.1 visited.2.2 key hasKey

/-- When `.flags` is set after the import, `foo` becomes a decimal variable. -/
theorem flags_follow_list_decimal :
    ∃ last, Run (Session.AdmittedStep smdkv210Env) (Session.start 67)
        (importOperations ++ [setVariable true flagsVar fooDecimal]) last ∧
      (last.htab.table 37).entry.key = some foo ∧ (last.htab.table 37).entry.flags = 1 := by
  obtain ⟨session, imported, -, -, creatable, checks⟩ := exists_imported
  obtain ⟨last, succeeded, visited, hasKey, expected⟩ := checks.exists
  have step := creatable.step ⟨by decide, by decide +kernel⟩ (fun _ => fooDecimal_wellFormed)
    succeeded
  have run := imported.append (.cons step (.nil last))
  have follows := flags_follow_list smdkv210Env_guarded smdkv210Env_static validSize_67 run
    visited hasKey
  exact ⟨last, run, hasKey, follows.trans expected⟩

/-- `x` is imported, then `.flags` is set to `foo:d`, then `foo` is created. -/
def staleOperations : List EnvCall :=
  [setVariable false (.ofBytes [120]) one, setVariable true flagsVar fooDecimal,
    setVariable true foo one]

/-- The list pointer stays `NULL` after the first creation, so that `foo` is created as a
string variable although `.flags` says that it is decimal. -/
theorem new_variable_misses_flags :
    ∃ last, Run (Session.FormedStep smdkv210Env) (Session.start 67) staleOperations last ∧
      last.htab.Visited 37 ∧ (last.htab.table 37).entry.key = some foo ∧
      (last.htab.table 37).entry.flags ≠ flagsFor smdkv210Env (getenv last.htab flagsVar) foo := by
  obtain ⟨last, executed, results⟩ :
      ∃ last, staleOperations.foldlM (Session.succeed smdkv210Env) (Session.start 67) = .ok last ∧
        last.htab.Visited 37 ∧ (last.htab.table 37).entry.key = some foo ∧
        (last.htab.table 37).entry.flags ≠ flagsFor smdkv210Env (getenv last.htab flagsVar) foo :=
    Exec.Returns.exists (by decide +kernel)
  have formed : ∀ call ∈ staleOperations, call.operation.WellFormed := by
    intro call member
    simp only [staleOperations, List.mem_cons, List.not_mem_nil, or_false] at member
    rcases member with rfl | rfl | rfl
    · exact fun same => absurd same (by decide)
    · exact fun _ => fooDecimal_wellFormed
    · exact fun same => absurd same (by decide)
  refine ⟨last, ?_, results⟩
  exact ((Run.of_foldlM executed).of_labels formed).mono fun step =>
    ⟨Session.step_of_succeed step.1, step.2⟩

theorem flagsAttribute_onChangeOf_callback (config : EnvConfig) (value : Option CString)
    (entry : Entry) :
    ((flagsAttribute config).onChangeOf value entry).callback = entry.callback := by
  have kept (value : Option CString) (attributes : Attributes)
      (same : attributes.callback = entry.callback) :
      ((flagsAttribute config).assign value attributes).callback = entry.callback := same
  apply ListedAttribute.walkOf_keeps kept
  apply ListedAttribute.walkOf_keeps kept
  rfl

/-- `on_flags` returns on every table that can be searched. The flags of every live variable
become those of the last entry for its name in the new list, or else in the static list;
nothing else changes. The hook of the table's operations gives the same table. -/
theorem onFlags_follows {config : EnvConfig} {htab : HSearchData} (value : Option CString)
    (searchable : htab.Searchable) (valid : htab.Everywhere Slot.ValidKey) :
    ∃ after, onFlags config value htab = .ok after ∧ after.Same htab ∧
      (∀ index, (after.table index).entry.callback = (htab.table index).entry.callback) ∧
      (∀ index, ¬ htab.Visited index → after.table index = htab.table index) ∧
      (∀ index key, htab.Visited index → (htab.table index).entry.key = some key →
        (after.table index).entry.flags = flagsFor config value key) ∧
      ∀ (session : Session) call (entry : Entry) name op flag, entry.callback = some onFlagsId →
          (session.hooks config call).runCallback htab entry name value op flag = some after := by
  have same := htab.setAttributes_same ((flagsAttribute config).onChangeOf value)
  refine ⟨_, ListedAttribute.onChange_eq _ searchable, same, ?_, ?_, ?_, ?_⟩
  · intro index
    rw [HSearchData.setAttributes_table]
    split
    · exact flagsAttribute_onChangeOf_callback config value _
    · rfl
  · intro index notVisited
    rw [HSearchData.setAttributes_table, if_neg notVisited]
  · intro index key visited hasKey
    exact HSearchData.flagsFollow_onFlags valid index visited.1 visited.2.1
      (htab.setAttributes_visited.mpr visited).2.2 key ((same.slots index).key.trans hasKey)
  · intro session call entry name op flag bound
    exact (Session.runCallback_listed searchable List.mem_cons_self bound).2

/-- Of the imported variables `foo:d` names one. -/
theorem onFlags_follows_imported : ∃ htab after,
    onFlags smdkv210Env (some fooDecimal) htab = .ok after ∧
      ((htab.table 37).entry.key = some foo ∧ (after.table 37).entry.flags = 1) ∧
      ((htab.table 2).entry.key = some (.ofBytes [120]) ∧ (after.table 2).entry.flags = 0) := by
  obtain ⟨session, imported, ⟨visitedFoo, isFoo⟩, ⟨visitedX, isX⟩, -, -⟩ := exists_imported
  obtain ⟨contents, consistent⟩ :=
    Session.exists_consistent smdkv210Env_guarded smdkv210Env_static validSize_67 imported
  obtain ⟨after, returned, -, -, -, flags, -⟩ :=
    @onFlags_follows smdkv210Env session.htab (some fooDecimal)
      consistent.represents.invariant.toSearchable consistent.validKey
  exact ⟨session.htab, after, returned, ⟨isFoo, (flags 37 foo visitedFoo isFoo).trans (by decide)⟩,
    isX, (flags 2 _ visitedX isX).trans (by decide)⟩

end UBootV210.Environment
