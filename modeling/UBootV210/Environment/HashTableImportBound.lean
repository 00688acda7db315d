import UBootV210.Environment.HashTableFailure
import UBootV210.Environment.HashTableImportText

/-! # Whether an import stays inside its copy of the input

Only the outer loop of `himport_r` compares its cursor with the size. The scans
inside an entry stop at a NUL or a separator. -/

namespace UBootV210.Environment

open CheckedMemory

def ImportEvent.isEmptyName : ImportEvent → Bool
  | .insert ⟨[], _⟩ _ => true
  | _ => false

/-- Every entry that the import reads is closed inside the text. The import ends
behind an entry with an empty name, at the end of the text or at a NUL. -/
inductive Terminated (sep : UInt8) : List UInt8 → Prop
  | emptyName {text rest : List UInt8} {event : ImportEvent}
      (read : readEntry sep text = some (event, rest)) (empty : event.isEmptyName = true) :
      Terminated sep text
  | ended {text : List UInt8} {event : ImportEvent}
      (read : readEntry sep text = some (event, [])) : Terminated sep text
  | nul {text rest : List UInt8} {event : ImportEvent}
      (read : readEntry sep text = some (event, 0 :: rest)) : Terminated sep text
  | next {text rest : List UInt8} {event : ImportEvent} {byte : UInt8}
      (read : readEntry sep text = some (event, byte :: rest))
      (terminated : Terminated sep (byte :: rest)) : Terminated sep text

variable {sep : UInt8} {text rest : List UInt8}

theorem readValue_length_le (read : readValue sep text = some (value, rest)) :
    rest.length ≤ text.length := by
  have scanned := scanValue_scanned sep text.nil_prefix (Nat.zero_le 0) List.drop_zero
    (Nat.lt_succ_self _)
  rw [read] at scanned
  obtain ⟨data, dp, _, _, ahead, _, length⟩ := scanned
  rw [← ahead, List.length_drop]
  omega

variable {event : ImportEvent}

theorem readAfterName_length_lt (read : readAfterName sep name stop after = some (event, rest)) :
    rest.length < (stop :: after).length := by
  rw [readAfterName.eq_def] at read
  split at read
  · cases read
    simp
  · split at read
    · cases read
    · rename_i next tail
      split at read
      · cases read
        split <;> simp only [List.length_cons] <;> omega
      · split at read
        · rename_i value terminator remaining readValue
          cases read
          have bound := readValue_length_le readValue
          simp only [List.length_cons] at bound ⊢
          omega
        · cases read

theorem readEntry_length_lt (read : readEntry sep text = some (event, rest)) :
    rest.length < text.length := by
  have blanks : (text.dropWhile isblank).length ≤ text.length :=
    (List.dropWhile_suffix _).length_le
  rw [readEntry] at read
  split at read
  · cases read
  · rename_i first remaining afterBlanks
    rw [afterBlanks] at blanks
    split at read
    · have comment : ((first :: remaining).dropWhile (isCommentByte sep)).length ≤
          (first :: remaining).length := (List.dropWhile_suffix _).length_le
      split at read
      · cases read
      · rename_i stop after afterComment
        cases read
        rw [afterComment] at comment
        simp only [List.length_cons] at comment blanks
        omega
    · have name : ((first :: remaining).dropWhile (isNameByte sep)).length ≤
          (first :: remaining).length := (List.dropWhile_suffix _).length_le
      split at read
      · cases read
      · rename_i stop after afterName
        have shorter := readAfterName_length_lt read
        rw [afterName] at name
        omega

/-! ## Table operations have no access of their own to the text -/

section

variable (hooks : Hooks) (allocation : Allocation) (item : Item)

theorem compareAndOverwriteEntry_ne_outOfBounds (action : Action) (htab : HSearchData) (flag : Int)
    (hval idx : UInt32) :
    compareAndOverwriteEntry hooks allocation item action htab flag hval idx ≠
      .error .outOfBounds := by
  unfold compareAndOverwriteEntry
  dsimp only
  split
  · split
    · simp
    · split
      · split <;> simp
      · simp
  · simp

theorem probeLoop_ne_outOfBounds (action : Action) (htab : HSearchData) (flag : Int)
    (hval hval2 : UInt32) (fuel : Nat) (idx : UInt32) :
    probeLoop hooks allocation item action htab flag hval hval2 fuel idx ≠ .error .outOfBounds := by
  induction fuel generalizing idx with
  | zero => simp [probeLoop]
  | succ fuel induction =>
    rw [probeLoop]
    split
    · simp
    · have compared := compareAndOverwriteEntry_ne_outOfBounds hooks allocation item action htab
        flag hval (probeNext htab.size hval2 idx)
      split
      · exact Exec.error_ne compared (by assumption)
      · simp
      · split
        · exact induction _
        · simp

theorem probe_ne_outOfBounds (action : Action) (htab : HSearchData) (flag : Int) (hval : UInt32) :
    probe hooks allocation item action htab flag hval ≠ .error .outOfBounds := by
  unfold probe
  split
  · have compared := compareAndOverwriteEntry_ne_outOfBounds hooks allocation item action htab
      flag hval hval
    split
    · exact Exec.error_ne compared (by assumption)
    · simp
    · exact probeLoop_ne_outOfBounds hooks allocation item action htab flag hval _ _ _
  · simp

theorem hsearchR_ne_outOfBounds (action : Action) (htab : HSearchData) (flag : Int) :
    hsearchR hooks allocation item action htab flag ≠ .error .outOfBounds := by
  have probed := probe_ne_outOfBounds hooks allocation item action htab flag
    (hashValue htab.size item.key)
  rw [hsearchR]
  split
  · exact Exec.error_ne probed (by assumption)
  · simp
  · split
    · simp
    · split <;> simp

end

theorem hdeleteR_ne_outOfBounds (hooks : Hooks) (key : CString) (htab : HSearchData)
    (flag : Int) : hdeleteR hooks key htab flag ≠ .error .outOfBounds := by
  have searched := hsearchR_ne_outOfBounds hooks .succeeds ⟨key, none⟩ .find htab 0
  rw [hdeleteR]
  split
  · exact Exec.error_ne searched (by assumption)
  · rename_i found next _
    split
    · simp
    · cases refused : hooks.rejects (next.table found.ret).entry none .delete flag with
      | true => simp [refused]
      | false =>
        simp only [refused, cond_false]
        split <;> simp

theorem applyEvent_ne_outOfBounds :
    applyEvent hooks allocation flag state event ≠ .error .outOfBounds := by
  cases event with
  | comment => simp [applyEvent]
  | delete name =>
    have deleted := hdeleteR_ne_outOfBounds hooks name state.htab flag
    simp only [applyEvent]
    cases (dropVarFromSet name state.localvars).1 with
    | false => simp
    | true =>
      cases outcome : hdeleteR hooks name state.htab flag <;>
        simp_all [Except.map]
  | insert name value =>
    have entered := hsearchR_ne_outOfBounds hooks allocation ⟨name, some value⟩ .enter
      state.htab flag
    simp only [applyEvent]
    cases (dropVarFromSet name state.localvars).1 with
    | false => simp
    | true =>
      cases outcome : hsearchR hooks allocation ⟨name, some value⟩ .enter state.htab flag <;>
        simp_all [Except.map]

theorem applyEvent_returns (hooks : Hooks) (flag : Int)
    (searchable : state.htab.Searchable) (event : ImportEvent) :
    ∃ next, applyEvent hooks .succeeds flag state event = .ok next ∧ next.htab.Searchable := by
  cases event with
  | comment => exact ⟨state, rfl, searchable⟩
  | delete name =>
    simp only [applyEvent]
    cases (dropVarFromSet name state.localvars).1 with
    | false => exact ⟨_, rfl, searchable⟩
    | true =>
      obtain ⟨ret, next, outcome, kept⟩ := searchable.delete_returns hooks name flag
      rw [outcome]
      exact ⟨_, rfl, kept⟩
  | insert name value =>
    simp only [applyEvent]
    cases (dropVarFromSet name state.localvars).1 with
    | false => exact ⟨_, rfl, searchable⟩
    | true =>
      obtain ⟨result, next, outcome, kept, _⟩ :=
        searchable.enter_returns hooks name value flag
      rw [outcome]
      exact ⟨_, rfl, kept⟩

theorem deleteMissing_ne_outOfBounds (hooks : Hooks) (flag : Int)
    (vars : List (Option CString)) (htab : HSearchData) :
    deleteMissing hooks flag vars htab ≠ .error .outOfBounds := by
  induction vars generalizing htab with
  | nil => simp [deleteMissing]
  | cons var vars induction =>
    cases var with
    | none => exact induction htab
    | some var =>
      exact Exec.bind_ne_error (hdeleteR_ne_outOfBounds hooks var htab flag)
        fun result => induction result.2

section

variable (hooks : Hooks) (allocations : Nat → Allocation) (sep : UInt8) (flag : Int)

theorem importLoop_end (fuel : Nat) (before : List UInt8) (state : ImportState)
    (read : readEntry sep text = none) :
    importLoop hooks allocations sep flag (fuel + 1) (before ++ text) before.length state =
      .error .outOfBounds := by
  have parsed := parseEntry_parsed sep before text
  rw [read] at parsed
  change _ = _ at parsed
  rw [importLoop, parsed]
  rfl

def continueBefore (rest : List UInt8) (loop : ImportState → Exec ImportExit)
    (state : ImportState) : Exec ImportExit :=
  match rest with
  | [] => .ok (.finished state)
  | byte :: _ => if byte ≠ 0 then loop state else .ok (.finished state)

theorem importLoop_turn (fuel : Nat) (before : List UInt8) (state : ImportState)
    (read : readEntry sep text = some (event, rest)) :
    ∃ behind : List UInt8,
      importLoop hooks allocations sep flag (fuel + 1) (before ++ text) before.length state =
        bif event.isEmptyName then
          .ok (.emptyName state)
        else
          applyEvent hooks (allocations before.length) flag state event >>= continueBefore rest
              (importLoop hooks allocations sep flag fuel (behind ++ rest) behind.length) := by
  have parsed := parseEntry_parsed sep before text
  rw [read] at parsed
  obtain ⟨behind, outcome, _⟩ := parsed
  refine ⟨behind, ?_⟩
  have tested : (fun state : ImportState => if behind.length < (behind ++ rest).length then do
          let byte ← load (behind ++ rest) behind.length
          if byte ≠ 0 then
            importLoop hooks allocations sep flag fuel (behind ++ rest) behind.length state
          else
            return .finished state
        else
          return .finished state) = continueBefore rest
        (importLoop hooks allocations sep flag fuel (behind ++ rest) behind.length) := by
    funext state
    cases rest with
    | nil => simp [continueBefore, pure, Except.pure]
    | cons byte rest => simp [continueBefore, bind, Except.bind, pure, Except.pure]
  rw [importLoop, outcome, ← tested]
  cases event with
  | comment => rfl
  | delete name => rfl
  | insert name value =>
    obtain ⟨bytes, nulFree⟩ := name
    cases bytes with
    | nil => rfl
    | cons first bytes => rfl

theorem importLoop_entry (read : readEntry sep text = some (event, rest))
    (inside : event.isEmptyName = false → ∀ fuel behind state, continueBefore rest
      (importLoop hooks allocations sep flag fuel (behind ++ rest) behind.length) state ≠
        .error .outOfBounds) (fuel : Nat) (before : List UInt8) (state : ImportState) :
    importLoop hooks allocations sep flag fuel (before ++ text) before.length state ≠
      .error .outOfBounds := by
  cases fuel with
  | zero => simp [importLoop]
  | succ fuel =>
    obtain ⟨behind, turn⟩ := importLoop_turn hooks allocations sep flag fuel before state read
    rw [turn]
    cases empty : event.isEmptyName with
    | true => simp
    | false =>
      exact Exec.bind_ne_error applyEvent_ne_outOfBounds (inside empty fuel behind)

theorem importLoop_inside (terminated : Terminated sep text) (fuel : Nat) (before : List UInt8)
    (state : ImportState) :
    importLoop hooks allocations sep flag fuel (before ++ text) before.length state ≠
      .error .outOfBounds := by
  induction terminated generalizing fuel before state with
  | emptyName read empty =>
    exact importLoop_entry hooks allocations sep flag read (by simp [empty]) fuel before state
  | ended read =>
    exact importLoop_entry hooks allocations sep flag read (by simp [continueBefore]) fuel before
      state
  | nul read =>
    exact importLoop_entry hooks allocations sep flag read (by simp [continueBefore]) fuel before
      state
  | next read terminated induction =>
    refine importLoop_entry hooks allocations sep flag read ?_ fuel before state
    intro _ fuel behind state
    rw [continueBefore]
    split
    · exact induction fuel behind state
    · simp

-- Each turn shortens the text, so the fuel does not run out before the text.
theorem importLoop_outside (allocated : ∀ offset, allocations offset = .succeeds) {fuel : Nat}
    {text : List UInt8} (enough : text.length < fuel) (unclosed : ¬ Terminated sep text)
    (before : List UInt8) {state : ImportState} (searchable : state.htab.Searchable) :
    importLoop hooks allocations sep flag fuel (before ++ text) before.length state =
      .error .outOfBounds := by
  induction fuel generalizing text before state with
  | zero => simp at enough
  | succ fuel induction =>
    cases read : readEntry sep text with
    | none => exact importLoop_end hooks allocations sep flag fuel before state read
    | some result =>
      obtain ⟨event, rest⟩ := result
      obtain ⟨behind, turn⟩ :=
        importLoop_turn hooks allocations sep flag fuel before state read
      obtain ⟨next, applied, kept⟩ := applyEvent_returns hooks flag searchable event
      have shorter := readEntry_length_lt read
      rw [turn, allocated, applied]
      cases empty : event.isEmptyName with
      | true => exact absurd (.emptyName read empty) unclosed
      | false =>
        cases rest with
        | nil => exact absurd (.ended read) unclosed
        | cons byte rest =>
          have notNul : byte ≠ 0 := by
            rintro rfl
            exact unclosed (.nul read)
          change continueBefore (byte :: rest) _ next = _
          rw [continueBefore, if_pos notNul]
          exact induction (by omega)
            (fun terminated => unclosed (.next read terminated)) behind kept

end

theorem importEntries_bounds (size : Nat) : 64 ≤ (UInt32.ofNat (importEntries size)).toNat ∧
      (UInt32.ofNat (importEntries size)).toNat ≤ 512 := by
  have bounds : 64 ≤ importEntries size ∧ importEntries size ≤ 512 := by
    unfold importEntries
    omega
  have exact_ : (UInt32.ofNat (importEntries size)).toNat = importEntries size := by
    rw [UInt32.toNat_ofNat']
    exact Nat.mod_eq_of_lt (by omega)
  rw [exact_]
  exact bounds

theorem importTable_searchable {htab : Option HSearchData}
    (kept : ∀ table, htab = some table → table.Searchable) (size : Nat) (flag : Int) :
    ∃ table, importTable htab size flag true = .ok (some table) ∧ table.Searchable := by
  have bounds := importEntries_bounds size
  obtain ⟨tableSize, created, valid, _⟩ := hcreateR_importRange bounds.1 bounds.2
  have fresh := (emptyTable_invariant valid).toSearchable
  unfold importTable
  cases hasFlag flag H_NOCLEAR with
  | false => exact ⟨_, created, fresh⟩
  | true =>
    cases htab with
    | none => exact ⟨_, created, fresh⟩
    | some table => exact ⟨table, rfl, kept table rfl⟩

theorem importTable_ne_outOfBounds (htab : Option HSearchData) (size : Nat) (flag : Int)
    (calloc : Bool) : importTable htab size flag calloc ≠ .error .outOfBounds := by
  have bounds := importEntries_bounds size
  obtain ⟨tableSize, created, _⟩ := hcreateR_importRange bounds.1 bounds.2
  have creates : hcreateR (UInt32.ofNat (importEntries size)) calloc ≠ .error .outOfBounds := by
    unfold hcreateR at created ⊢
    cases found : nextPrime (UInt32.ofNat (importEntries size)).toNat
        (UInt32.ofNat (importEntries size) ||| 1) with
    | error fault =>
      rw [found] at created
      cases created
    | ok size => cases calloc <;> simp
  unfold importTable
  split
  · simp
  · exact creates

/-- When every entry of the text is closed, no import of it leaves the copy,
whatever the table, the hooks and the memory are. When some entry is not closed,
every import that gets its memory leaves it. -/
theorem import_inside_iff (hooks : Hooks) (env : List UInt8) (sep : UInt8) (flag : Int)
    (vars : List CString) :
    (Terminated sep env → ∀ malloc calloc allocations htab,
        himportR hooks malloc calloc allocations htab env sep flag vars ≠ .error .outOfBounds) ∧
      ∀ allocations htab, (∀ offset, allocations offset = .succeeds) →
        (∀ table, htab = some table → table.Searchable) →
        (himportR hooks true true allocations htab env sep flag vars ≠ .error .outOfBounds ↔
          Terminated sep env) := by
  have inside : Terminated sep env → ∀ malloc calloc allocations htab,
      himportR hooks malloc calloc allocations htab env sep flag vars ≠ .error .outOfBounds := by
    intro terminated malloc calloc allocations htab
    have creates := importTable_ne_outOfBounds htab env.length flag calloc
    unfold himportR
    cases malloc with
    | false => simp
    | true =>
      refine Exec.bind_ne_error creates fun found => ?_
      cases found with
      | none => simp [pure, Except.pure]
      | some table =>
        have looped := importLoop_inside hooks allocations sep flag terminated
          (env.length + 1) [] ⟨table, vars.map some⟩
        refine Exec.bind_ne_error looped fun exit => ?_
        cases exit with
        | emptyName state => simp [pure, Except.pure]
        | finished state =>
          exact Exec.bind_ne_error (deleteMissing_ne_outOfBounds hooks flag _ _) fun _ => by
            simp [pure, Except.pure]
  refine ⟨inside, ?_⟩
  intro allocations htab allocated kept
  refine ⟨?_, fun terminated => inside terminated true true allocations htab⟩
  intro stays
  by_contra unclosed
  apply stays
  obtain ⟨table, created, searchable⟩ := importTable_searchable kept env.length flag
  have left := @importLoop_outside hooks allocations sep flag allocated (env.length + 1) env
    (Nat.lt_succ_self env.length) unclosed [] ⟨table, vars.map some⟩ searchable
  simp only [List.nil_append, List.length_nil] at left
  simp only [himportR, cond_true, bind, Except.bind, created]
  rw [left]

theorem import_inside_closed :
    himportR permissiveHooks true true (fun _ => .succeeds) none [97, 61, 98, 10] 10 0 [] ≠
      .error .outOfBounds :=
  ((import_inside_iff permissiveHooks [97, 61, 98, 10] 10 0 []).2 (fun _ => .succeeds) none
    (fun _ => rfl) (fun _ kept => by cases kept)).mpr (.ended rfl)

/-- The text `a`, one byte long and without a terminator, is read beyond its
end. -/
theorem import_leaves_copy :
    himportR permissiveHooks true true (fun _ => .succeeds) none [97] 10 0 [] =
      .error .outOfBounds := by
  obtain ⟨table, created, _⟩ := @importTable_searchable none (by simp) 1 0
  have read : readEntry 10 [97] = none := by rfl
  have left := importLoop_end permissiveHooks (fun _ => .succeeds) 10 0 1 [] ⟨table, []⟩ read
  simp only [List.nil_append, List.length_nil] at left
  simp only [himportR, cond_true, bind, Except.bind, List.length_singleton, created, List.map_nil]
  rw [left]

end UBootV210.Environment
