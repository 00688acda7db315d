import UBootV210.Foundation.CString

/-! # Bounded memory

A block of elements whose accesses are checked against its size. A cursor into
the block is described by cutting the block in two: the elements before it and
the elements from it on. -/

namespace UBootV210.CheckedMemory

variable {Element : Type}

def load (memory : List Element) (address : Nat) : Exec Element :=
  match memory[address]? with
  | none => .error .outOfBounds
  | some element => .ok element

def store (memory : List Element) (address : Nat) (element : Element) : Exec (List Element) :=
  if address < memory.length then .ok (memory.set address element) else .error .outOfBounds

def storeAll (memory : List Element) (address : Nat) : List Element → Exec (List Element)
  | [] => .ok memory
  | element :: elements =>
      match store memory address element with
      | .error fault => .error fault
      | .ok memory => storeAll memory (address + 1) elements

def loadString (memory : List UInt8) (address : Nat) : Exec CString :=
  if 0 ∈ memory.drop address then .ok (.ofBytes (memory.drop address)) else .error .outOfBounds

def scanWhile (continues : UInt8 → Bool) (memory : List UInt8) : Nat → Nat → Exec Nat
  | 0, _ => .error .diverges
  | fuel + 1, cursor =>
      match load memory cursor with
      | .error fault => .error fault
      | .ok byte =>
          bif continues byte then scanWhile continues memory fuel (cursor + 1) else .ok cursor

variable {memory : List Element} {address : Nat}

theorem load_eq_ok_iff : load memory address = .ok element ↔ memory[address]? = some element := by
  rw [load]
  cases memory[address]? <;> simp

theorem store_eq_ok_iff : store memory address element = .ok next ↔
      address < memory.length ∧ memory.set address element = next := by
  rw [store]
  split <;> simp_all

theorem load_ahead (ahead : memory.drop address = element :: rest) :
    load memory address = .ok element := by
  rw [load_eq_ok_iff, ← List.head?_drop, ahead]
  rfl

theorem drop_ahead (elements : List Element) (ahead : memory.drop address = elements ++ rest) :
    memory.drop (address + elements.length) = rest := by
  rw [← List.drop_drop, ahead, List.drop_left]

theorem tail_ahead (ahead : memory.drop address = element :: rest) :
    memory.drop (address + 1) = rest :=
  drop_ahead [element] ahead

theorem load_ahead_nil (ahead : memory.drop address = []) :
    load memory address = .error .outOfBounds := by
  rw [load, List.getElem?_eq_none (List.drop_eq_nil_iff.mp ahead)]

/-! ## Accesses at a cut -/

@[simp] theorem load_cut (before rest : List Element) (element : Element) :
    load (before ++ element :: rest) before.length = .ok element := by
  simp [load]

@[simp] theorem load_cut_nil : load before before.length = .error .outOfBounds := by
  simp [load]

@[simp] theorem load_cut_succ :
    load (before ++ first :: second :: rest) (before.length + 1) = .ok second := by
  simp [load]

@[simp] theorem store_cut (before rest : List Element) (old element : Element) :
    store (before ++ old :: rest) before.length element = .ok (before ++ element :: rest) := by
  simp [store]

@[simp] theorem store_cut_succ (before rest : List Element) (first old element : Element) :
    store (before ++ first :: old :: rest) (before.length + 1) element =
      .ok (before ++ first :: element :: rest) := by
  simp [store]

/-- An element is stored behind others, and what lies further on stays. -/
theorem store_behind (behind : head <+: memory) (more : head.length < memory.length)
    (element : Element) :
    ∃ next, store memory head.length element = .ok next ∧ head ++ [element] <+: next ∧
      next.length = memory.length ∧
      ∀ place, head.length < place → next.drop place = memory.drop place := by
  obtain ⟨rest, rfl⟩ := behind
  cases rest with
  | nil => simp at more
  | cons old rest =>
    refine ⟨head ++ element :: rest, store_cut head rest old element, ⟨rest, by simp⟩, by simp, ?_⟩
    intro place further
    obtain ⟨offset, rfl⟩ := Nat.exists_eq_add_of_lt further
    rw [Nat.add_assoc, List.drop_length_add_append, List.drop_length_add_append]
    rfl

theorem storeAll_cut (before old rest elements : List Element)
    (sized : elements.length = old.length) :
    storeAll (before ++ (old ++ rest)) before.length elements =
      .ok (before ++ (elements ++ rest)) := by
  induction elements generalizing before old with
  | nil =>
    cases old with
    | nil => rfl
    | cons byte old => simp at sized
  | cons element elements induction =>
    cases old with
    | nil => simp at sized
    | cons byte old =>
      have moved := induction (before ++ [element]) old (by simpa using sized)
      simp only [List.append_assoc, List.singleton_append, List.length_append,
        List.length_singleton] at moved
      simp only [storeAll, List.cons_append, store_cut, moved]

theorem storeAll_outside (some : elements ≠ [])
    (outside : memory.length < address + elements.length) :
    storeAll memory address elements = .error .outOfBounds := by
  induction elements generalizing memory address with
  | nil => exact absurd rfl some
  | cons element elements induction =>
    by_cases inside : address < memory.length
    · have more : elements ≠ [] := by
        rintro rfl
        rw [List.length_singleton] at outside
        omega
      rw [storeAll, store_eq_ok_iff.mpr ⟨inside, rfl⟩]
      apply induction more
      rw [List.length_set]
      rw [List.length_cons] at outside
      omega
    · rw [storeAll, store, if_neg inside]

theorem loadString_cut (before string rest : List UInt8) (nulFree : 0 ∉ string) :
    loadString (before ++ string ++ 0 :: rest) before.length = .ok ⟨string, nulFree⟩ := by
  rw [loadString, List.append_assoc, List.drop_left, if_pos (by simp), CString.ofBytes_cut nulFree]

theorem loadString_behind {memory : List UInt8} (behind : before ++ string ++ [0] <+: memory)
    (nulFree : 0 ∉ string) :
    loadString memory before.length = .ok ⟨string, nulFree⟩ := by
  obtain ⟨rest, rfl⟩ := behind
  rw [List.append_assoc, List.singleton_append, loadString_cut]

/-- A scan stops at the first byte that fails the test, or runs off the end. -/
theorem scanWhile_cut {continues : UInt8 → Bool} {before rest : List UInt8} {fuel : Nat}
    (enough : rest.length < fuel) :
    scanWhile continues (before ++ rest) fuel before.length =
      if rest.dropWhile continues = [] then
        .error .outOfBounds
      else
        .ok (before.length + (rest.takeWhile continues).length) := by
  induction rest generalizing before fuel with
  | nil =>
    cases fuel with
    | zero => simp at enough
    | succ fuel => simp [scanWhile]
  | cons byte rest induction =>
    cases fuel with
    | zero => simp at enough
    | succ fuel =>
      rw [scanWhile, load_cut]
      cases tested : continues byte with
      | false => simp [tested]
      | true =>
        have moved := @induction (before ++ [byte]) fuel
          (by simp only [List.length_cons] at enough; omega)
        simp only [List.append_assoc, List.singleton_append, List.length_append,
          List.length_cons, List.length_nil, Nat.zero_add] at moved
        simp only [cond_true, moved, tested, List.dropWhile_cons_of_pos,
          List.takeWhile_cons_of_pos, List.length_cons]
        split
        · rfl
        · congr 1
          omega

section

variable {Result : Type} (test : Element → Option Result)

def search : Nat → Nat → List Element → Exec (Option (Nat × Element × Result))
  | 0, _, _ => .ok none
  | count + 1, index, memory =>
      match load memory index with
      | .error fault => .error fault
      | .ok element =>
          match test element with
          | some result => .ok (some (index, element, result))
          | none => search count (index + 1) memory

def firstHit : Nat → List Element → Option (Nat × Element × Result)
  | _, [] => none
  | index, element :: elements =>
      match test element with
      | some result => some (index, element, result)
      | none => firstHit (index + 1) elements

theorem search_cut (before elements rest : List Element) :
    search test elements.length before.length (before ++ (elements ++ rest)) =
      .ok (firstHit test before.length elements) := by
  induction elements generalizing before with
  | nil => rfl
  | cons element elements induction =>
    have moved := induction (before ++ [element])
    simp only [List.append_assoc, List.singleton_append, List.length_append,
      List.length_singleton] at moved
    rw [List.length_cons, search, List.cons_append, load_cut, firstHit]
    dsimp only
    cases test element with
    | none => exact moved
    | some result => rfl

theorem search_list :
    search test elements.length 0 (elements ++ rest) = .ok (firstHit test 0 elements) :=
  search_cut test [] elements rest

theorem firstHit_eq_none_iff (index : Nat) (elements : List Element) :
    firstHit test index elements = none ↔ ∀ element ∈ elements, test element = none := by
  induction elements generalizing index with
  | nil => simp [firstHit]
  | cons element elements induction =>
    rw [firstHit]
    cases tested : test element with
    | none => simp [tested, induction]
    | some result => simp [tested]

theorem firstHit_eq_some_iff : firstHit test index elements = some (found, hit, result) ↔
      ∃ passed later, elements = passed ++ hit :: later ∧ found = index + passed.length ∧
        test hit = some result ∧ ∀ element ∈ passed, test element = none := by
  induction elements generalizing index with
  | nil => simp [firstHit]
  | cons element elements induction =>
    rw [firstHit]
    cases tested : test element with
    | some first =>
      constructor
      · intro equal
        cases equal
        exact ⟨[], elements, rfl, rfl, tested, by simp⟩
      · rintro ⟨passed, later, shape, rfl, hits, missed⟩
        cases passed with
        | nil =>
          cases shape
          rw [tested] at hits
          cases hits
          rfl
        | cons skipped passed =>
          cases shape
          have none := missed element List.mem_cons_self
          rw [tested] at none
          cases none
    | none =>
      rw [induction]
      constructor
      · rintro ⟨passed, later, rfl, rfl, hits, missed⟩
        refine ⟨element :: passed, later, rfl, ?_, hits, ?_⟩
        · simp only [List.length_cons]
          omega
        · intro other member
          rcases List.mem_cons.mp member with rfl | member
          · exact tested
          · exact missed other member
      · rintro ⟨passed, later, shape, rfl, hits, missed⟩
        cases passed with
        | nil =>
          cases shape
          rw [tested] at hits
          cases hits
        | cons skipped passed =>
          cases shape
          refine ⟨passed, later, rfl, ?_, hits, fun other member =>
            missed other (List.mem_cons_of_mem _ member)⟩
          simp only [List.length_cons]
          omega

end

end UBootV210.CheckedMemory
