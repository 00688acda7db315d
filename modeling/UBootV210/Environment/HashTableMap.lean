import UBootV210.Foundation.Run
import UBootV210.Environment.HashTableCreate
import UBootV210.Environment.HashTableSearch

/-! # The environment store as a finite map

The create path may write over a live entry when every slot has been used once,
so the comparison with a map from names to values needs room for each new key. -/

namespace UBootV210.Environment

inductive Operation
  | enter (key value : CString) (flag : Int) (allocation : Allocation)
  | find (key : CString)
  | delete (key : CString) (flag : Int)

structure Observation where
  ret : Nat
  value : Option CString
  deriving DecidableEq

def observe (result : HSearchReturn × HSearchData) : Observation × HSearchData :=
  (⟨result.1.ret, result.1.retval.bind fun index => (result.2.table index).entry.data⟩, result.2)

def perform (hooks : Hooks) (htab : HSearchData) :
    Operation → Exec (Observation × HSearchData)
  | .enter key value flag allocation =>
      (hsearchR hooks allocation ⟨key, some value⟩ .enter htab flag).map observe
  | .find key => (hsearchR hooks .succeeds ⟨key, none⟩ .find htab 0).map observe
  | .delete key flag =>
      (hdeleteR hooks key htab flag).map fun result => (⟨result.1, none⟩, result.2)

def StoreStep (hooks : Hooks) (htab : HSearchData) (label : Operation × Observation)
    (next : HSearchData) : Prop :=
  perform hooks htab label.1 = .ok (label.2, next)

/-! ## The abstract store -/

abbrev Contents := CString → Option CString

/-- The effect of an observed operation on a plain map: only a successful
ENTER and a successful delete change it. -/
def record (contents : Contents) : Operation × Observation → Contents
  | (.enter key value _ _, observed) =>
      if observed.ret ≠ 0 then Function.update contents key (some value) else contents
  | (.delete key _, observed) =>
      if observed.ret ≠ 0 then Function.update contents key none else contents
  | (.find _, _) => contents

def recorded (trace : List (Operation × Observation)) : Contents :=
  trace.foldl record fun _ => none

structure Represents (htab : HSearchData) (contents : Contents) : Prop where
  invariant : htab.Invariant
  stores : ∀ key value, htab.Stores key value ↔ contents key = some value

structure Hooks.Accepting (hooks : Hooks) : Prop where
  changeOk : ∀ entry newval op flag, hooks.rejects entry newval op flag = false
  callback : ∀ callback name value op flag htab,
    (hooks.callback callback name value op flag htab).isSome = true

theorem Hooks.Accepting.runCallback {hooks : Hooks} (accepting : hooks.Accepting)
    (htab : HSearchData) (entry : Entry) (name : CString) (value : Option CString)
    (op : EnvOp) (flag : Int) :
    (hooks.runCallback htab entry name value op flag).isSome = true := by
  unfold Hooks.runCallback
  split
  · rfl
  · simp [accepting.callback]

theorem Hooks.Accepting.createEntry {hooks : Hooks} (accepting : hooks.Accepting)
    (key value : CString) (htab : HSearchData) (flag : Int) (idx hval : UInt32)
    (notFull : htab.filled ≠ htab.size) :
    ∃ next, next.Same (createdTable .succeeds key value htab idx hval) ∧
      createEntry hooks .succeeds key value htab flag hval idx =
        (.success 1 (createTarget htab idx hval), next) := by
  rcases createEntry_cases hooks .succeeds key value htab flag idx hval notFull with
    ⟨failed, _⟩ | ⟨_, ⟨refused, _⟩ | ⟨_, next, ran, outcome⟩⟩
  · cases failed
  · simp [createAccepted, accepting.changeOk, accepting.runCallback] at refused
  · exact ⟨next, (Hooks.runCallback_same ran).trans (initAttributes_same ..), outcome⟩

def Operation.Allocated : Operation → Prop
  | .enter _ _ _ allocation => allocation = .succeeds
  | _ => True

/-- A new key is entered only while the table has room for it or is known to
be full. -/
def Operation.Fits (htab : HSearchData) : Operation → Prop
  | .enter key _ _ _ => htab.Absent key → htab.filled ≠ htab.size → htab.HasRoom key
  | _ => True

namespace Represents

variable {htab : HSearchData} {contents : Contents} {key value : CString}

theorem absent_iff (represents : Represents htab contents) :
    htab.Absent key ↔ contents key = none := by
  unfold HSearchData.Absent
  simp only [represents.stores]
  constructor
  · intro none
    cases found : contents key with
    | none => rfl
    | some value => exact absurd found (none value)
  · intro none value found
    rw [none] at found
    cases found

theorem of_same (represents : Represents htab contents)
    (same : next.Same htab) : Represents next contents where
  invariant := same.invariant represents.invariant
  stores key value := (same.stores_iff key value).trans (represents.stores key value)

theorem find (hooks : Hooks) (represents : Represents htab contents) (key : CString) :
    ∃ ret, perform hooks htab (.find key) = .ok (⟨ret, contents key⟩, htab) ∧
      (ret = 0 ↔ contents key = none) := by
  cases found : contents key with
  | none =>
    have searched := represents.invariant.find_absent hooks .succeeds 0 none
      (represents.absent_iff.mpr found)
    refine ⟨0, ?_, by simp⟩
    rw [perform, searched]
    rfl
  | some value =>
    obtain ⟨idx, lower, upper, live, searched⟩ := represents.invariant.find_stored hooks
      .succeeds 0 none ((represents.stores key value).mpr found)
    have held := represents.invariant.holds lower upper live
    refine ⟨idx.toNat, ?_, by simp only [reduceCtorEq, iff_false]; omega⟩
    rw [perform, searched]
    simp [Except.map, observe, HSearchReturn.success, held.data]

theorem of_update (represents : Represents htab contents) (invariant : next.Invariant)
    (stores : ∀ other stored, next.Stores other stored ↔
      (other = key ∧ data = some stored) ∨ (other ≠ key ∧ htab.Stores other stored)) :
    Represents next (Function.update contents key data) := by
  refine ⟨invariant, ?_⟩
  intro other stored
  rw [stores]
  by_cases same : other = key
  · subst same
    simp
  · simp [same, represents.stores]

theorem withData (represents : Represents htab contents) (value : CString)
    (lower : 1 ≤ idx.toNat) (upper : idx.toNat ≤ htab.size.toNat)
    (live : htab.cells idx.toNat = .live key old) :
    Represents (htab.withData idx (some value)) (Function.update contents key (some value)) := by
  obtain ⟨invariant, stores⟩ := represents.invariant.withData value lower upper live
  apply represents.of_update invariant
  intro other stored
  rw [stores, Option.some.injEq, eq_comm (b := other)]

theorem delete (represents : Represents htab contents) (lower : 1 ≤ idx.toNat)
    (upper : idx.toNat ≤ htab.size.toNat) (live : htab.cells idx.toNat = .live key old) :
    Represents (hdelete htab idx) (Function.update contents key none) := by
  obtain ⟨invariant, stores⟩ := represents.invariant.delete lower upper live
  apply represents.of_update invariant
  intro other stored
  simp [stores]

theorem enter_stored (hooks : Hooks) (accepting : hooks.Accepting)
    (represents : Represents htab contents) (value : CString) (flag : Int) {old : CString}
    (found : contents key = some old) :
    ∃ observed next, perform hooks htab (.enter key value flag .succeeds) = .ok (observed, next) ∧
      observed.ret ≠ 0 ∧ Represents next (Function.update contents key (some value)) := by
  obtain ⟨idx, lower, upper, live, searched⟩ := represents.invariant.enter_stored hooks
    .succeeds flag value ((represents.stores key old).mpr found)
  rcases overwriteEntry_cases hooks .succeeds key value htab flag idx with
    ⟨refused, _⟩ | ⟨_, called, ran, outcome⟩
  · simp [overwriteAccepted, accepting.changeOk, accepting.runCallback] at refused
  · have same := Hooks.runCallback_same ran
    refine ⟨_, _, by rw [perform, searched, outcome]; rfl, ?_, (represents.of_same same).withData
      value lower (same.size ▸ upper) (same.cells ▸ live)⟩
    change idx.toNat ≠ 0
    omega

theorem createdTable (represents : Represents htab contents) (value : CString)
    (found : contents key = none) (notFull : htab.filled ≠ htab.size)
    (room : htab.HasRoom key) {idx : UInt32} (stops : htab.StopsAt key idx) :
    Represents (createdTable .succeeds key value htab idx (hashValue htab.size key))
      (Function.update contents key (some value)) := by
  obtain ⟨invariant, stores⟩ := @HSearchData.Invariant.createdTable htab key value
    represents.invariant (represents.absent_iff.mpr found) notFull room idx stops
  apply represents.of_update invariant
  intro other stored
  rw [stores, Option.some.injEq, eq_comm (b := other)]
  by_cases same : other = key
  · subst same
    simp [represents.stores, found]
  · simp [same]

theorem enter_absent (hooks : Hooks) (accepting : hooks.Accepting)
    (represents : Represents htab contents) (value : CString) (flag : Int)
    (found : contents key = none) (notFull : htab.filled ≠ htab.size)
    (room : htab.HasRoom key) :
    ∃ observed next, perform hooks htab (.enter key value flag .succeeds) = .ok (observed, next) ∧
      observed.ret ≠ 0 ∧ Represents next (Function.update contents key (some value)) := by
  obtain ⟨idx, stops, searched⟩ := represents.invariant.enter_absent hooks .succeeds flag
    value (represents.absent_iff.mpr found)
  obtain ⟨next, same, outcome⟩ := accepting.createEntry key value htab flag idx
    (hashValue htab.size key) notFull
  have updated := represents.createdTable value found notFull room stops
  refine ⟨_, next, by rw [perform, searched, outcome]; rfl, ?_, updated.of_same same⟩
  change 1 ≠ 0
  decide

theorem enter_full (represents : Represents htab contents) (found : contents key = none)
    (full : htab.filled = htab.size) :
    perform hooks htab (.enter key value flag .succeeds) = .ok (⟨0, none⟩, htab) := by
  obtain ⟨idx, stops, searched⟩ := represents.invariant.enter_absent hooks .succeeds flag
    value (represents.absent_iff.mpr found)
  rw [perform, searched, createEntry_full _ _ _ _ _ _ _ _ full]
  rfl

theorem delete_stored {hooks : Hooks} (accepting : hooks.Accepting)
    (represents : Represents htab contents) (flag : Int) {old : CString}
    (found : contents key = some old) :
    ∃ next, perform hooks htab (.delete key flag) = .ok (⟨1, none⟩, next) ∧
      Represents next (Function.update contents key none) := by
  obtain ⟨idx, lower, upper, live, ⟨refused, _⟩ | ⟨_, called, ran, outcome⟩⟩ :=
    represents.invariant.hdeleteR_cases hooks flag ((represents.stores key old).mpr found)
  · simp [accepting.changeOk, accepting.runCallback] at refused
  · have same := Hooks.runCallback_same ran
    exact ⟨_, by rw [perform, outcome]; rfl,
      (represents.of_same same).delete lower (same.size ▸ upper) (same.cells ▸ live)⟩

theorem delete_absent (hooks : Hooks) (represents : Represents htab contents) (flag : Int)
    (found : contents key = none) :
    perform hooks htab (.delete key flag) = .ok (⟨0, none⟩, htab) := by
  have searched := represents.invariant.find_absent hooks .succeeds 0 none
    (represents.absent_iff.mpr found)
  simp [perform, hdeleteR, searched, HSearchReturn.failure, Except.map]

theorem perform (hooks : Hooks) (accepting : hooks.Accepting)
    (represents : Represents htab contents) (operation : Operation)
    (allocated : operation.Allocated) (fits : operation.Fits htab) :
    ∃ observed next, Environment.perform hooks htab operation = .ok (observed, next) ∧
      Represents next (record contents (operation, observed)) := by
  cases operation with
  | enter key value flag allocation =>
    cases allocated
    cases found : contents key with
    | some old =>
      obtain ⟨observed, next, outcome, success, updated⟩ :=
        represents.enter_stored hooks accepting value flag found
      exact ⟨observed, next, outcome, by rwa [record, if_pos success]⟩
    | none =>
      by_cases full : htab.filled = htab.size
      · exact ⟨_, htab, represents.enter_full found full, represents⟩
      · obtain ⟨observed, next, outcome, success, updated⟩ :=
          represents.enter_absent hooks accepting value flag found full
            (fits (represents.absent_iff.mpr found) full)
        exact ⟨observed, next, outcome, by rwa [record, if_pos success]⟩
  | find key =>
    obtain ⟨ret, outcome, _⟩ := represents.find hooks key
    exact ⟨_, htab, outcome, represents⟩
  | delete key flag =>
    cases found : contents key with
    | some old =>
      obtain ⟨next, outcome, updated⟩ :=
        represents.delete_stored accepting flag found
      exact ⟨_, next, outcome, updated⟩
    | none =>
      exact ⟨_, htab, represents.delete_absent hooks flag found, represents⟩

theorem filled (represents : Represents htab contents) :
    htab.filled.toNat = Set.ncard {key | contents key ≠ none} := by
  rw [represents.invariant.filled, ← OpenAddressing.ncard_stored represents.invariant.valid]
  congr 1
  ext key
  simp only [Set.mem_ofPred_eq, ← htab.stores_iff represents.invariant.validSize,
    represents.stores, Option.ne_none_iff_exists']

end Represents

/-! ## Runs -/

/-- What a caller can check in a reached state: every FIND answers from the
map, and `filled` counts its keys. -/
structure AgreesWith (hooks : Hooks) (htab : HSearchData) (contents : Contents) : Prop where
  find : ∀ key, ∃ ret, perform hooks htab (.find key) = .ok (⟨ret, contents key⟩, htab) ∧
    (ret = 0 ↔ contents key = none)
  filled : htab.filled.toNat = Set.ncard {key | contents key ≠ none}

theorem Represents.agreesWith (represents : Represents htab contents) :
    AgreesWith hooks htab contents where
  find := represents.find hooks
  filled := represents.filled

def AllocatedStep (hooks : Hooks) (htab : HSearchData) (label : Operation × Observation)
    (next : HSearchData) : Prop :=
  StoreStep hooks htab label next ∧ label.1.Allocated

def FittingStep (hooks : Hooks) (htab : HSearchData) (label : Operation × Observation)
    (next : HSearchData) : Prop :=
  AllocatedStep hooks htab label next ∧ label.1.Fits htab

variable {trace : List (Operation × Observation)}

theorem Represents.run (hooks : Hooks) (accepting : hooks.Accepting)
    (run : Run (FittingStep hooks) first trace last)
    (represents : Represents first contents) :
    Represents last (trace.foldl record contents) := by
  induction run generalizing contents with
  | nil => exact represents
  | @cons first middle last label labels step _ induction =>
    obtain ⟨⟨performed, allocated⟩, fits⟩ := step
    obtain ⟨observed, next, outcome, updated⟩ :=
      represents.perform hooks accepting label.1 allocated fits
    cases performed.symm.trans outcome
    exact induction updated

theorem emptyTable_represents (valid : ValidSize size) :
    Represents (emptyTable size) fun _ => none where
  invariant := emptyTable_invariant valid
  stores key value := by
    simpa using emptyTable_absent size key value

def permissiveHooks : Hooks where
  changeOk := none
  envCallbackInit _ entry := entry.callback
  envFlagsInit _ entry := entry.flags
  callback _ _ _ _ _ _ := some Entry.toAttributes

theorem permissiveHooks_accepting : permissiveHooks.Accepting where
  changeOk _ _ _ _ := rfl
  callback _ _ _ _ _ _ := rfl

def letter (code : Nat) : CString := .ofBytes [UInt8.ofNat code]

theorem hcreateR_sixtyFour : hcreateR 64 true = .ok (some (emptyTable 67)) := by
  rfl

/-- Starting from any table size that `himport_r` asks for, every state reached
by operations that fit agrees with the map of the successful operations, every
FIND on the way answered from it, and the next operation that fits returns. -/
theorem store_refines_map (hooks : Hooks) (accepting : hooks.Accepting) (nel : UInt32)
    (lower : 64 ≤ nel.toNat) (upper : nel.toNat ≤ 512) :
    ∃ start, hcreateR nel true = .ok (some start) ∧
      ∀ trace last, Run (FittingStep hooks) start trace last →
        AgreesWith hooks last (recorded trace) ∧
        (∀ before key observed after, trace = before ++ (.find key, observed) :: after →
          observed.value = recorded before key) ∧
        ∀ operation, operation.Allocated → operation.Fits last →
          ∃ observed next, FittingStep hooks last (operation, observed) next := by
  obtain ⟨size, created, valid, _⟩ := hcreateR_importRange lower upper
  refine ⟨_, created, ?_⟩
  intro trace last run
  have represents := Represents.run hooks accepting run (emptyTable_represents valid)
  refine ⟨represents.agreesWith, ?_, ?_⟩
  · intro before key observed after split
    subst split
    obtain ⟨middle, head, tail⟩ := run.split
    cases tail with
    | cons step _ =>
      obtain ⟨ret, outcome, _⟩ := (Represents.run hooks accepting head
        (emptyTable_represents valid)).find hooks key
      cases step.1.1.symm.trans outcome
      rfl
  · intro operation allocated fits
    obtain ⟨observed, next, outcome, _⟩ :=
      represents.perform hooks accepting operation allocated fits
    exact ⟨observed, next, ⟨outcome, allocated⟩, fits⟩

theorem store_refines_map_one_entry : ∃ start observed last, hcreateR 64 true = .ok (some start) ∧
      FittingStep permissiveHooks start
        (.enter (letter 97) (letter 98) 0 .succeeds, observed) last ∧
      AgreesWith permissiveHooks last
        (recorded [(.enter (letter 97) (letter 98) 0 .succeeds, observed)]) := by
  obtain ⟨start, created, reached⟩ := store_refines_map permissiveHooks
    permissiveHooks_accepting 64 (by decide) (by decide)
  cases hcreateR_sixtyFour.symm.trans created
  obtain ⟨_, _, next⟩ := reached [] _ (.nil _)
  obtain ⟨observed, last, step⟩ := next (.enter (letter 97) (letter 98) 0 .succeeds) rfl
    (fun _ _ => .inl ⟨1, le_rfl, by decide, rfl⟩)
  exact ⟨_, observed, last, created, step, (reached _ last (.cons step (.nil _))).1⟩

def execute (hooks : Hooks) (htab : HSearchData) :
    List Operation → Exec (List (Operation × Observation) × HSearchData)
  | [] => .ok ([], htab)
  | operation :: rest =>
      match perform hooks htab operation with
      | .error fault => .error fault
      | .ok (observed, next) =>
          (execute hooks next rest).map fun result =>
            ((operation, observed) :: result.1, result.2)

theorem execute_run (executed : execute hooks first operations = .ok (trace, last)) :
    Run (StoreStep hooks) first trace last ∧ trace.map Prod.fst = operations := by
  induction operations generalizing first trace with
  | nil =>
    cases executed
    exact ⟨.nil _, rfl⟩
  | cons operation rest induction =>
    rw [execute] at executed
    split at executed
    · cases executed
    · rename_i observed next performed
      obtain ⟨result, tail, same⟩ := Exec.map_eq_ok executed
      cases same
      obtain ⟨run, labels⟩ := induction tail
      exact ⟨.cons performed run, by simp [labels]⟩

/-- Sixty-seven names fill the smallest table, one is deleted, and a new name
whose first slot is live is entered. -/
def clobberingOperations : List Operation :=
  (List.range 66).map (fun index => .enter (letter (52 + index)) (letter 65) 0 .succeeds) ++
    [.enter (letter 150) (letter 65) 0 .succeeds, .delete (letter 60) 0,
      .enter (letter 200) (letter 66) 0 .succeeds]

private theorem clobbering_loses :
    ∃ result, execute permissiveHooks (emptyTable 67) clobberingOperations = .ok result ∧
      recorded result.1 (letter 66) = some (letter 65) ∧
      (perform permissiveHooks result.2 (.find (letter 66))).map Prod.fst = .ok ⟨0, none⟩ :=
  Exec.Returns.exists (by decide +kernel)

private theorem clobberingOperations_allocated :
    ∀ operation ∈ clobberingOperations, operation.Allocated := by
  intro operation member
  simp only [clobberingOperations, List.mem_append, List.mem_map, List.mem_cons,
    List.not_mem_nil, or_false] at member
  rcases member with ⟨_, _, rfl⟩ | rfl | rfl | rfl <;> trivial

/-- The entry of a live name is gone after another name was entered. -/
theorem store_loses_live_key : hcreateR 64 true = .ok (some (emptyTable 67)) ∧
      ∃ trace last, trace.map Prod.fst = clobberingOperations ∧
        Run (AllocatedStep permissiveHooks) (emptyTable 67) trace last ∧
        ¬ AgreesWith permissiveHooks last (recorded trace) := by
  refine ⟨hcreateR_sixtyFour, ?_⟩
  obtain ⟨⟨trace, last⟩, executed, expected, found⟩ := clobbering_loses
  obtain ⟨run, labels⟩ := execute_run executed
  have allocated : ∀ label ∈ trace, label.1.Allocated := by
    intro label member
    exact clobberingOperations_allocated label.1 (labels ▸ List.mem_map_of_mem member)
  refine ⟨trace, last, labels, run.of_labels allocated, ?_⟩
  intro agrees
  obtain ⟨ret, outcome, _⟩ := agrees.find (letter 66)
  rw [outcome, expected] at found
  simp [Except.map] at found

end UBootV210.Environment
