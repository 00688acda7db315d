import UBootV210.Environment.HashTableExport
import UBootV210.Environment.HashTableFailure

/-! # Listing the variables with a prefix

`hmatch_r` is called again and again with the index that it returned, as
`env_complete` does. The loop stops in front of the last slot of the table. -/

namespace UBootV210.Environment

open OpenAddressing

def strncmp : Nat → List UInt8 → List UInt8 → Int
  | 0, _, _ => 0
  | _ + 1, [], [] => 0
  | _ + 1, [], right :: _ => (BitVec.ofInt 8 (0 - right.toNat)).toInt
  | _ + 1, left :: _, [] => (BitVec.ofInt 8 left.toNat).toInt
  | count + 1, left :: lefts, right :: rights =>
      if left = right then
        strncmp count lefts rights
      else
        (BitVec.ofInt 8 (left.toNat - right.toNat)).toInt

theorem byte_difference_ne_zero {left right : UInt8} (different : left ≠ right) :
    (BitVec.ofInt 8 (left.toNat - right.toNat)).toInt ≠ 0 := by
  have distinct : left.toNat ≠ right.toNat := fun equal => different (UInt8.toNat_inj.mp equal)
  have leftLt := left.toNat_lt
  have rightLt := right.toNat_lt
  rw [BitVec.toInt_ofInt, Int.bmod]
  split <;> omega

theorem strncmp_length_eq_zero_iff (nulFree : 0 ∉ pattern) :
    strncmp pattern.length pattern string = 0 ↔ pattern <+: string := by
  induction pattern generalizing string with
  | nil => simp [strncmp]
  | cons byte pattern induction =>
    rw [List.mem_cons, not_or] at nulFree
    cases string with
    | nil =>
      have nonzero := byte_difference_ne_zero (Ne.symm nulFree.1)
      exact ⟨fun equal => absurd equal nonzero, fun shorter => by simp at shorter⟩
    | cons first string =>
      rw [List.length_cons, strncmp, List.cons_prefix_cons]
      split
      case isTrue equal => rw [induction nulFree.2, and_iff_right equal]
      case isFalse different =>
        exact ⟨fun equal => absurd equal (byte_difference_ne_zero different),
          fun both => absurd both.1 different⟩

def hmatchLoop (htab : HSearchData) (pattern : CString) : Nat → Nat → Exec HSearchReturn
  | 0, _ => .ok (.failure .ESRCH)
  | count + 1, idx => do
      if (htab.table idx).used ≤ 0 then
        hmatchLoop htab pattern count (idx + 1)
      else
        let key ← deref (htab.table idx).entry.key
        if strncmp pattern.length pattern.bytes key.bytes = 0 then
          return ⟨idx, some idx, none⟩
        else
          hmatchLoop htab pattern count (idx + 1)

-- The loop runs while `idx < htab->size`.
def hmatchR (pattern : CString) (lastIdx : Nat) (htab : HSearchData) : Exec HSearchReturn :=
  hmatchLoop htab pattern (htab.size.toNat - (lastIdx + 1)) (lastIdx + 1)

/-- The keys that are handed out from an index on, until a call returns 0. -/
def hmatchKeys (pattern : CString) (htab : HSearchData) : Nat → Nat → Exec (List CString)
  | 0, _ => .error .diverges
  | fuel + 1, idx => do
      let found ← hmatchR pattern idx htab
      if found.ret = 0 then
        return []
      let key ← deref (htab.table found.ret).entry.key
      let keys ← hmatchKeys pattern htab fuel found.ret
      return key :: keys

/-- `while ((idx = hmatch_r(var, idx, &match, &env_htab)))` from index 0. -/
def listing (pattern : CString) (htab : HSearchData) : Exec (List CString) :=
  hmatchKeys pattern htab (htab.size.toNat + 1) 0

def matchedKey (htab : HSearchData) (pattern : CString) (idx : Nat) : Option CString :=
  if (htab.table idx).used ≤ 0 then
    none
  else
    (htab.table idx).entry.key.filter fun key => pattern.bytes.isPrefixOf key.bytes

def Keyed (htab : HSearchData) (start count : Nat) : Prop :=
  ∀ idx, start ≤ idx → idx < start + count → 0 < (htab.table idx).used →
    ∃ key, (htab.table idx).entry.key = some key

def listedKeys (htab : HSearchData) (pattern : CString) (start count : Nat) : List CString :=
  (List.range' start count).filterMap (matchedKey htab pattern)

/-- The outcome of a loop over a range of slots, and what the range lists. -/
inductive FirstListed (htab : HSearchData) (pattern : CString) (start count : Nat) :
    Exec HSearchReturn → Prop
  | absent : listedKeys htab pattern start count = [] →
      FirstListed htab pattern start count (.ok (.failure .ESRCH))
  | found {idx : Nat} {key : CString} : start ≤ idx → idx < start + count →
      (htab.table idx).entry.key = some key →
      listedKeys htab pattern start count =
        key :: listedKeys htab pattern (idx + 1) (start + count - (idx + 1)) →
      FirstListed htab pattern start count (.ok ⟨idx, some idx, none⟩)

theorem FirstListed.skip {htab : HSearchData} {pattern : CString} {start count : Nat}
    {outcome : Exec HSearchReturn} (later : FirstListed htab pattern (start + 1) count outcome)
    (missed : matchedKey htab pattern start = none) :
    FirstListed htab pattern start (count + 1) outcome := by
  have skipped : listedKeys htab pattern start (count + 1) =
      listedKeys htab pattern (start + 1) count := by
    rw [listedKeys, List.range'_succ, List.filterMap_cons_none missed, listedKeys]
  have total : start + 1 + count = start + (count + 1) := by omega
  cases later with
  | absent empty => exact .absent (skipped.trans empty)
  | found lower upper stored listed =>
    rw [total] at upper listed
    exact .found (Nat.le_of_succ_le lower) upper stored (skipped.trans listed)

variable {htab : HSearchData}

theorem hmatchLoop_listed (pattern : CString) (keyed : Keyed htab start count) :
    FirstListed htab pattern start count (hmatchLoop htab pattern count start) := by
  induction count generalizing start with
  | zero => exact .absent rfl
  | succ count induction =>
    have later := @induction (start + 1) fun idx lower upper =>
      keyed idx (by omega) (by omega)
    by_cases unused : (htab.table start).used ≤ 0
    · rw [hmatchLoop, if_pos unused]
      apply later.skip
      rw [matchedKey, if_pos unused]
    · obtain ⟨key, stored⟩ := keyed start (Nat.le_refl _) (by omega) (not_le.mp unused)
      have compared : strncmp pattern.length pattern.bytes key.bytes = 0 ↔
          pattern.bytes <+: key.bytes := strncmp_length_eq_zero_iff pattern.nulFree
      rw [hmatchLoop, if_neg unused, stored, deref, Exec.ok_bind]
      by_cases hit : pattern.bytes <+: key.bytes
      · have listed : matchedKey htab pattern start = some key := by
          simp [matchedKey, unused, stored, hit]
        have total : start + (count + 1) - (start + 1) = count := by omega
        rw [if_pos (compared.mpr hit)]
        apply FirstListed.found (Nat.le_refl _) (by omega) stored
        rw [listedKeys, List.range'_succ, List.filterMap_cons_some listed, total, listedKeys]
      · rw [if_neg fun equal => hit (compared.mp equal)]
        apply later.skip
        simp [matchedKey, unused, stored, hit]

theorem hmatchKeys_eq (keyed : Keyed htab (idx + 1) (htab.size.toNat - (idx + 1)))
    (enough : htab.size.toNat - (idx + 1) < fuel) :
    hmatchKeys pattern htab fuel idx =
      .ok (listedKeys htab pattern (idx + 1) (htab.size.toNat - (idx + 1))) := by
  induction fuel generalizing idx with
  | zero => omega
  | succ fuel induction =>
    have first := hmatchLoop_listed pattern keyed
    rw [hmatchKeys, hmatchR]
    generalize hmatchLoop htab pattern (htab.size.toNat - (idx + 1)) (idx + 1) = outcome
      at first ⊢
    cases first with
    | absent empty =>
      rw [empty]
      rfl
    | @found next key lower upper stored listed =>
      have nonzero : next ≠ 0 := by omega
      have total : idx + 1 + (htab.size.toNat - (idx + 1)) - (next + 1) =
          htab.size.toNat - (next + 1) := by omega
      have rest := @induction next
        (fun later after before => keyed later (by omega) (by omega)) (by omega)
      rw [total] at listed
      rw [listed, Exec.ok_bind, if_neg nonzero, stored, deref, Exec.ok_bind, rest]
      rfl

/-! ## Tables that inserts and deletes lead to -/

theorem AllocatedStep.searchable (step : AllocatedStep hooks htab label next)
    (searchable : htab.Searchable) : next.Searchable := by
  obtain ⟨performed, allocated⟩ := step
  obtain ⟨operation, observed⟩ := label
  refine StoreStep.searchable performed searchable ?_
  rintro key value flag allocation rfl
  cases allocated
  obtain ⟨result, after, returned, kept, _⟩ := searchable.enter_returns hooks key value flag
  rw [StoreStep, perform, returned] at performed
  cases performed
  exact kept

namespace HSearchData.Searchable

variable {htab : HSearchData}

theorem keyed (searchable : htab.Searchable) : Keyed htab 1 (htab.size.toNat - 1) := by
  intro idx lower upper used
  cases searchable.sound idx lower (by omega) with
  | inl free => omega
  | inr used' =>
    rcases used' with deleted | ⟨key, value, holds⟩
    · omega
    · exact ⟨key, holds.key⟩

theorem matchedKey_eq_some_iff (searchable : htab.Searchable) (pattern : CString)
    (lower : 1 ≤ idx) (upper : idx ≤ htab.size.toNat) (key : CString) :
    matchedKey htab pattern idx = some key ↔
      (∃ value, htab.cells idx = .live key value) ∧ pattern.bytes <+: key.bytes := by
  have large := searchable.validSize.large
  constructor
  · intro matched
    rw [matchedKey] at matched
    split at matched
    · cases matched
    case isFalse used =>
      obtain ⟨stored, hit⟩ := Option.filter_eq_some_iff.mp matched
      cases searchable.sound idx lower upper with
      | inl free => omega
      | inr used' =>
        rcases used' with deleted | ⟨key', value, holds⟩
        · omega
        · rw [holds.key] at stored
          cases stored
          exact ⟨⟨value, holds.cell large⟩, List.isPrefixOf_iff_prefix.mp hit⟩
  · intro live
    obtain ⟨⟨value, live⟩, hit⟩ := live
    have holds := searchable.holds lower upper live
    have used := holds.used_pos large
    rw [matchedKey, if_neg (not_le.mpr used), holds.key]
    exact Option.filter_some_pos (List.isPrefixOf_iff_prefix.mpr hit)

theorem mem_listedKeys_iff (searchable : htab.Searchable) (pattern key : CString) :
    key ∈ listedKeys htab pattern 1 (htab.size.toNat - 1) ↔ ∃ idx, 1 ≤ idx ∧ idx < htab.size.toNat ∧
        (∃ value, htab.cells idx = .live key value) ∧ pattern.bytes <+: key.bytes := by
  rw [listedKeys, List.mem_filterMap]
  constructor
  · intro listed
    obtain ⟨idx, member, matched⟩ := listed
    rw [List.mem_range'_1] at member
    exact ⟨idx, member.1, by omega,
      (searchable.matchedKey_eq_some_iff pattern member.1 (by omega) key).mp matched⟩
  · intro live
    obtain ⟨idx, lower, upper, live⟩ := live
    refine ⟨idx, ?_, (searchable.matchedKey_eq_some_iff pattern lower upper.le key).mpr live⟩
    rw [List.mem_range'_1]
    omega

theorem listedKeys_nodup (searchable : htab.Searchable) :
    (listedKeys htab pattern 1 (htab.size.toNat - 1)).Nodup := by
  apply (List.pairwise_filterMap (f := matchedKey htab pattern)).mpr
  apply List.Pairwise.imp_of_mem _ (List.nodup_range' (s := 1))
  intro left right leftMember rightMember different leftKey leftListed rightKey rightListed equal
  rw [List.mem_range'_1] at leftMember rightMember
  obtain ⟨⟨leftValue, leftLive⟩, _⟩ :=
    (searchable.matchedKey_eq_some_iff pattern leftMember.1 (by omega) leftKey).mp leftListed
  obtain ⟨⟨rightValue, rightLive⟩, _⟩ :=
    (searchable.matchedKey_eq_some_iff pattern rightMember.1 (by omega) rightKey).mp rightListed
  rw [equal] at leftLive
  exact different (searchable.valid.unique (searchable.mem_indices leftMember.1 (by omega))
    (searchable.mem_indices rightMember.1 (by omega)) leftLive rightLive)

end HSearchData.Searchable

/-- In every table that inserts and deletes lead to, the listing of a prefix ends.
It has every live key with the prefix exactly once and nothing else exactly when the
last slot of the table does not hold such a key. -/
theorem prefix_listing_complete_iff (hooks : Hooks) {size : UInt32} (valid : ValidSize size)
    {trace : List (Operation × Observation)} {htab : HSearchData}
    (run : Run (AllocatedStep hooks) (emptyTable size) trace htab) (pattern : CString) :
    ∃ keys, listing pattern htab = .ok keys ∧ ((keys.Nodup ∧ ∀ key, key ∈ keys ↔
          (∃ value, htab.Stores key value) ∧ pattern.bytes <+: key.bytes) ↔
        ¬ ∃ key value, htab.cells htab.size.toNat = .live key value ∧
          pattern.bytes <+: key.bytes) := by
  have searchable : htab.Searchable :=
    run.invariant (fun step kept => AllocatedStep.searchable step kept)
      (emptyTable_invariant valid).toSearchable
  have large := searchable.validSize.large
  refine ⟨_, hmatchKeys_eq searchable.keyed (by omega), ?_⟩
  constructor
  · intro complete last
    obtain ⟨key, value, live, hit⟩ := last
    have stored : ∃ value, htab.Stores key value :=
      ⟨value, htab.size.toNat, by omega, Nat.le_refl _, live⟩
    have listed := (complete.2 key).mpr ⟨stored, hit⟩
    obtain ⟨idx, lower, upper, ⟨other, found⟩, _⟩ :=
      (searchable.mem_listedKeys_iff pattern key).mp listed
    have same := searchable.valid.unique (searchable.mem_indices lower upper.le)
      (searchable.mem_indices (by omega) (Nat.le_refl _)) found live
    omega
  · intro missing
    refine ⟨searchable.listedKeys_nodup, fun key => ?_⟩
    rw [Nat.zero_add, searchable.mem_listedKeys_iff]
    constructor
    · intro listed
      obtain ⟨idx, lower, upper, ⟨value, live⟩, hit⟩ := listed
      exact ⟨⟨value, idx, lower, upper.le, live⟩, hit⟩
    · intro stored
      obtain ⟨⟨value, idx, lower, upper, live⟩, hit⟩ := stored
      refine ⟨idx, lower, lt_of_le_of_ne upper ?_, ⟨value, live⟩, hit⟩
      intro last
      rw [last] at live
      exact missing ⟨key, value, live, hit⟩

/-- Four names with the same first index; the last of them is stored in the last
slot. -/
def collidingNames : List CString :=
  [.ofBytes [83], .ofBytes [97, 77], .ofBytes [98, 56], .ofBytes [99, 102]]

def collidingOperations (count : Nat) : List Operation :=
  (collidingNames.take count).map fun name => .enter name (letter 120) 0 .succeeds

theorem collidingOperations_run
    (executed : execute permissiveHooks (emptyTable 67) (collidingOperations count) =
      .ok (trace, htab)) :
    trace.map Prod.fst = collidingOperations count ∧
      Run (AllocatedStep permissiveHooks) (emptyTable 67) trace htab := by
  obtain ⟨run, labels⟩ := execute_run executed
  refine ⟨labels, run.of_labels fun label member => ?_⟩
  have operation : label.1 ∈ collidingOperations count :=
    labels ▸ List.mem_map_of_mem member
  obtain ⟨name, _, equal⟩ := List.mem_map.mp operation
  rw [← equal]
  rfl

theorem prefix_listing_complete_iff_three :
    ∃ trace htab, trace.map Prod.fst = collidingOperations 3 ∧
      Run (AllocatedStep permissiveHooks) (emptyTable 67) trace htab ∧
      ∃ keys, listing (.ofBytes [98]) htab = .ok keys ∧ ((keys.Nodup ∧ ∀ key, key ∈ keys ↔
            (∃ value, htab.Stores key value) ∧ (CString.ofBytes [98]).bytes <+: key.bytes) ↔
          ¬ ∃ key value, htab.cells htab.size.toNat = .live key value ∧
            (CString.ofBytes [98]).bytes <+: key.bytes) := by
  obtain ⟨⟨trace, htab⟩, executed, -⟩ :
      ∃ result, execute permissiveHooks (emptyTable 67) (collidingOperations 3) = .ok result ∧
        True :=
    Exec.Returns.exists (by decide +kernel)
  obtain ⟨labels, run⟩ := collidingOperations_run executed
  have valid : ValidSize 67 := ⟨by change Nat.Prime 67; norm_num, by decide⟩
  exact ⟨trace, htab, labels, run,
    prefix_listing_complete_iff permissiveHooks valid run (.ofBytes [98])⟩

/-- Four variables are set, and the last of them is found by its name but not
listed for it. -/
theorem prefix_listing_misses_last_slot : hcreateR 64 true = .ok (some (emptyTable 67)) ∧
      ∃ trace htab, trace.map Prod.fst = collidingOperations 4 ∧
        Run (AllocatedStep permissiveHooks) (emptyTable 67) trace htab ∧
        (perform permissiveHooks htab (.find (.ofBytes [99, 102]))).map Prod.fst =
          .ok ⟨67, some (letter 120)⟩ ∧
        listing (.ofBytes [99, 102]) htab = .ok [] := by
  refine ⟨hcreateR_sixtyFour, ?_⟩
  obtain ⟨⟨trace, htab⟩, executed, missed⟩ :
      ∃ result, execute permissiveHooks (emptyTable 67) (collidingOperations 4) = .ok result ∧
        (perform permissiveHooks result.2 (.find (.ofBytes [99, 102]))).map Prod.fst =
          .ok ⟨67, some (letter 120)⟩ ∧
        listing (.ofBytes [99, 102]) result.2 = .ok [] :=
    Exec.Returns.exists (by decide +kernel)
  obtain ⟨labels, run⟩ := collidingOperations_run executed
  exact ⟨trace, htab, labels, run, missed⟩

end UBootV210.Environment
