import UBootV210.Foundation.CString

/-! # The nodes that a configuration's signature covers

The part of `fit_config_check_sig` in `common/image-sig.c` that makes the list
`node_inc` out of the strings of the `hashed-nodes` property. An access outside
the property or outside `node_inc` is a fault. -/

namespace UBootV210.Signature

/-- What the signature's node gives: the message of `fit_image_setup_verify` if
it fails, and two properties if they are there. A `hashed-nodes` property of a
negative length is read like an empty one. -/
structure ConfigSignature where
  setupVerify : Option String
  hashValue : Option (List UInt8)
  hashedNodes : Option (List UInt8)

def imageMaxHashedNodes : ℕ := 100

def countNames (prop : List UInt8) : ℕ :=
  prop.foldl (fun count byte => if byte = 0 then count + 1 else count) 0

def nameLength (prop : List UInt8) (name : ℕ) : Exec ℕ :=
  if 0 ∈ prop.drop name then .ok ((prop.drop name).takeWhile (· ≠ 0)).length
  else .error .outOfBounds

def listNodes (prop : List UInt8) (nodeInc : List (Option ℕ)) (name index : ℕ) :
    Exec (List (Option ℕ)) :=
  if name < prop.length then
    if index < nodeInc.length then
      match nameLength prop name with
      | .ok length =>
        listNodes prop (nodeInc.set index (some name)) (name + length + 1) (index + 1)
      | .error fault => .error fault
    else .error .outOfBounds
  else .ok nodeInc
termination_by prop.length - name

/-- `fit_config_check_sig` up to the call of `fdt_find_regions`: the message it
fails with, or the list it passes on, uninitialised entries `none`. -/
def hashedNodeList (config : ConfigSignature) : Exec (String ⊕ List (Option ℕ)) :=
  match config.setupVerify with
  | some message => .ok (.inl message)
  | none =>
    if config.hashValue = none then .ok (.inl "Can't get hash value property")
    else
      let prop := config.hashedNodes.getD []
      let count := countNames prop
      if count = 0 then .ok (.inl "Can't get hashed-nodes property")
      else if count > imageMaxHashedNodes then
        .ok (.inl "Number of hashed nodes exceeds maximum")
      else (listNodes prop (List.replicate count none) 0 0).map .inr

def Inside (prop : List UInt8) (node : Option ℕ) : Prop :=
  ∃ name, node = some name ∧ 0 ∈ prop.drop name

variable {prop : List UInt8}

theorem countNames_eq : countNames prop = prop.count 0 := by
  suffices counted : ∀ start, prop.foldl (fun count byte => if byte = 0 then count + 1 else count)
      start = start + prop.count 0 by
    simpa [countNames] using counted 0
  induction prop with
  | nil => simp
  | cons byte rest induction =>
    intro start
    by_cases zero : byte = 0 <;> simp [zero, induction]
    omega

theorem nameLength_ok (read : nameLength prop name = .ok length) :
    ∃ text, 0 ∉ text ∧ prop.drop name = text ++ 0 :: prop.drop (name + length + 1) := by
  unfold nameLength at read
  split at read
  case isFalse => cases read
  case isTrue member =>
    obtain ⟨text, rest, split, free⟩ := List.eq_append_cons_of_mem member
    have taken : (prop.drop name).takeWhile (· ≠ 0) = text := by
      rw [split]
      exact congrArg CString.bytes (CString.ofBytes_cut free)
    have size : text.length = length := by
      rw [taken] at read
      exact Except.ok.inj read
    refine ⟨text, free, ?_⟩
    have behind : prop.drop (name + length + 1) = rest := by
      rw [Nat.add_assoc, ← List.drop_drop, split, ← size]
      simp
    rw [behind, split]

theorem last_ne_nul (more : name < prop.length) (free : 0 ∉ prop.drop name) :
    (prop.drop name).getLast?.getD 0 ≠ 0 := by
  have left : prop.drop name ≠ [] := by simpa using more
  rw [List.getLast?_eq_some_getLast left]
  intro zero
  exact free (zero ▸ List.getLast_mem left)

/-- The list has room for exactly the NULs that are left, so it is filled when
the property ends in one of them and overrun otherwise. -/
theorem listNodes_spec {nodeInc : List (Option ℕ)} {name index : ℕ}
    (room : index + (prop.drop name).count 0 = nodeInc.length)
    (inside : ∀ node ∈ nodeInc.take index, Inside prop node) :
    ((prop.drop name).getLast?.getD 0 = 0 →
      ∃ nodes, listNodes prop nodeInc name index = .ok nodes ∧ ∀ node ∈ nodes, Inside prop node) ∧
    ((prop.drop name).getLast?.getD 0 ≠ 0 →
      listNodes prop nodeInc name index = .error .outOfBounds) := by
  fun_induction listNodes prop nodeInc name index with
  | case1 nodeInc name index more fits length read induction =>
    obtain ⟨text, free, split⟩ := nameLength_ok read
    have last : (prop.drop name).getLast?.getD 0 =
        (prop.drop (name + length + 1)).getLast?.getD 0 := by
      rw [split, List.getLast?_append, List.getLast?_cons]
      simp
    rw [last]
    apply induction
    · rw [split, List.count_append, List.count_eq_zero.mpr free, List.count_cons_self] at room
      rw [List.length_set]
      omega
    · intro node member
      simp only [List.take_add_one, List.take_set_of_le le_rfl, List.getElem?_set_self fits,
        Option.toList_some, List.mem_append, List.mem_singleton] at member
      rcases member with earlier | rfl
      · exact inside node earlier
      · exact ⟨name, rfl, by simp [split]⟩
  | case2 nodeInc name index more fits fault read =>
    by_cases member : 0 ∈ prop.drop name
    · simp [nameLength, member] at read
    · have equal : Fault.outOfBounds = fault := by simpa [nameLength, member] using read
      exact ⟨fun last => absurd last (last_ne_nul more member), fun _ => by rw [equal]⟩
  | case3 nodeInc name index more full =>
    have free : 0 ∉ prop.drop name := List.count_eq_zero.mp (by omega)
    exact ⟨fun last => absurd last (last_ne_nul more free), fun _ => rfl⟩
  | case4 nodeInc name index done =>
    have empty : prop.drop name = [] := List.drop_eq_nil_of_le (by omega)
    rw [empty] at room ⊢
    have full : nodeInc.take index = nodeInc := List.take_of_length_le room.ge
    exact ⟨fun _ => ⟨nodeInc, rfl, full ▸ inside⟩, fun last => absurd rfl last⟩

/-- Every access is inside exactly when the property ends in a NUL, or the list
is not made: an earlier step fails, or there is no NUL or one of more than
`imageMaxHashedNodes`. -/
theorem hashedNodeList_inside_iff (config : ConfigSignature) :
    (∃ result, hashedNodeList config = .ok result ∧ ∀ nodes, result = .inr nodes →
      ∀ node ∈ nodes, Inside (config.hashedNodes.getD []) node) ↔
    config.setupVerify ≠ none ∨ config.hashValue = none ∨ (config.hashedNodes.getD []).count 0 = 0 ∨
      imageMaxHashedNodes < (config.hashedNodes.getD []).count 0 ∨
      (config.hashedNodes.getD []).getLast? = some 0 := by
  unfold hashedNodeList
  simp only [countNames_eq]
  split
  case h_1 message failed => simp [failed]
  case h_2 ready =>
    by_cases unsigned : config.hashValue = none
    · simp [unsigned]
    set prop := config.hashedNodes.getD []
    by_cases empty : prop.count 0 = 0
    · simp [unsigned, empty]
    by_cases many : imageMaxHashedNodes < prop.count 0
    · simp [unsigned, empty, many]
    obtain ⟨filled, overrun⟩ :=
      @listNodes_spec prop (List.replicate (prop.count 0) none) 0 0 (by simp) (by simp)
    rw [List.drop_zero] at filled overrun
    by_cases last : prop.getLast? = some 0
    · obtain ⟨nodes, listed, inside⟩ := filled (by simp [last])
      simpa [unsigned, empty, many, last, listed, Except.map] using inside
    · have ends : prop.getLast?.getD 0 ≠ 0 := by
        cases kept : prop.getLast? with
        | none => simp_all
        | some byte => simpa [kept] using last
      simp [ready, unsigned, empty, many, last, overrun ends, Except.map]

/-- A list whose last string is not ended: `"/"` and `"x"` without its NUL. -/
theorem hashedNodeList_overruns :
    hashedNodeList ⟨none, some [], some [0x2f, 0, 0x78]⟩ = .error .outOfBounds := by
  simp [hashedNodeList, countNames, imageMaxHashedNodes, listNodes, nameLength, Except.map]

end UBootV210.Signature
