import UBootV210.Environment.HashTableImport

/-! # What the import reads

The parser of `himport_r` as a function of the bytes from its cursor on. It
stores only behind the cursor, so the bytes still to be read are those of the
input. -/

namespace UBootV210.Environment

open CheckedMemory

def readValue (sep : UInt8) : List UInt8 → Option (List UInt8 × List UInt8)
  | [] => none
  | byte :: rest =>
      if byte = 0 ∨ byte = sep then
        some ([], byte :: rest)
      else if byte = backslash then
        match rest with
        | [] => none
        | next :: rest =>
            if next ≠ 0 then
              (readValue sep rest).map fun result => (next :: result.1, result.2)
            else
              some ([byte], next :: rest)
      else
        (readValue sep rest).map fun result => (byte :: result.1, result.2)

def readAfterName (sep : UInt8) (name : CString) (stop : UInt8) (after : List UInt8) :
    Option (ImportEvent × List UInt8) :=
  if stop = 0 then
    some (.delete name, after)
  else
    match after with
    | [] => none
    | next :: tail =>
        if next = 0 ∨ stop = sep ∨ next = sep then
          some (.delete name, if stop = equalsSign then tail else next :: tail)
        else
          match readValue sep (next :: tail) with
          | some (value, _ :: rest) => some (.insert name (.ofBytes value), rest)
          | _ => none

/-- One entry and the bytes behind it, or `none` when the text ends too early. -/
def readEntry (sep : UInt8) (text : List UInt8) : Option (ImportEvent × List UInt8) :=
  match text.dropWhile isblank with
  | [] => none
  | first :: rest =>
      if first = hashSign then
        match (first :: rest).dropWhile (isCommentByte sep) with
        | [] => none
        | _ :: after => some (.comment, after)
      else
        match (first :: rest).dropWhile (isNameByte sep) with
        | [] => none
        | stop :: after =>
            readAfterName sep (.ofBytes ((first :: rest).takeWhile (isNameByte sep))) stop after

/-! ## The value loop -/

section

variable {sep byte next : UInt8} {rest : List UInt8}

theorem readValue_stop (stops : byte = 0 ∨ byte = sep) :
    readValue sep (byte :: rest) = some ([], byte :: rest) := by
  rw [readValue.eq_def]
  simp only [stops, if_true]

theorem readValue_escape_end (continues : ¬ (backslash = 0 ∨ backslash = sep)) :
    readValue sep [backslash] = none := by
  rw [readValue.eq_def]
  simp only [continues, if_false, if_true]

theorem readValue_escape (continues : ¬ (backslash = 0 ∨ backslash = sep)) (notNul : next ≠ 0) :
    readValue sep (backslash :: next :: rest) =
      (readValue sep rest).map fun result => (next :: result.1, result.2) := by
  rw [readValue.eq_def]
  simp only [continues, notNul, ne_eq, not_false_eq_true, if_false, if_true]

theorem readValue_escape_nul (continues : ¬ (backslash = 0 ∨ backslash = sep)) :
    readValue sep (backslash :: 0 :: rest) = some ([backslash], 0 :: rest) := by
  rw [readValue.eq_def]
  simp only [continues, ne_eq, not_true_eq_false, if_false, if_true]

theorem readValue_plain (continues : ¬ (byte = 0 ∨ byte = sep)) (plain : byte ≠ backslash) :
    readValue sep (byte :: rest) =
      (readValue sep rest).map fun result => (byte :: result.1, result.2) := by
  rw [readValue.eq_def]
  simp only [continues, plain, if_false]

end

theorem readValue_spec
    (read : readValue sep text = some (value, rest)) : 0 ∉ value ∧ rest ≠ [] := by
  induction text using readValue.induct sep generalizing value rest with
  | case1 => cases read
  | case2 byte text stops =>
    rw [readValue_stop stops] at read
    cases read
    simp
  | case3 continues =>
    rw [readValue_escape_end continues] at read
    cases read
  | case4 next text notNul continues induction =>
    rw [readValue_escape continues notNul, Option.map_eq_some_iff] at read
    obtain ⟨⟨tail, remaining⟩, readTail, equal⟩ := read
    cases equal
    simpa [eq_comm, notNul] using induction readTail
  | case5 next text nul continues =>
    cases not_not.mp nul
    rw [readValue_escape_nul continues] at read
    cases read
    simp [backslash]
  | case6 byte text continues plain induction =>
    rw [readValue_plain continues plain, Option.map_eq_some_iff] at read
    obtain ⟨⟨tail, remaining⟩, readTail, equal⟩ := read
    cases equal
    have notNul : byte ≠ 0 := fun nul => continues (.inl nul)
    simpa [eq_comm, notNul] using induction readTail

/-- The outcome of the value loop: it runs off the end, or has moved the value
behind `head` and stands at its terminator. -/
def ValueScanned (result : Exec (List UInt8 × Nat × Nat)) (head : List UInt8) (length : Nat) :
    Option (List UInt8 × List UInt8) → Prop
  | none => result = .error .outOfBounds
  | some (value, rest) => ∃ data dp, result = .ok (data, (head ++ value).length, dp) ∧
      head ++ value <+: data ∧ data.drop dp = rest ∧ (head ++ value).length ≤ dp ∧
      data.length = length

section

variable {sep byte : UInt8} {head data rest : List UInt8} {dp : Nat} (behind : head <+: data)
  (order : head.length ≤ dp) (ahead : data.drop dp = byte :: rest)

include behind order ahead

theorem scanValue_stop (stops : byte = 0 ∨ byte = sep) :
    ValueScanned (scanValue sep (fuel + 1) data head.length dp) head data.length
      (some ([], byte :: rest)) := by
  rw [scanValue, load_ahead ahead]
  simp only [bind, Except.bind, stops, if_true]
  exact ⟨data, dp, by rw [List.append_nil]; rfl, by rwa [List.append_nil], ahead,
    by rwa [List.append_nil], rfl⟩

theorem scanValue_take {fuel : Nat} {read : Option (List UInt8 × List UInt8)}
    (scanned : ∀ next, head ++ [byte] <+: next → (head ++ [byte]).length ≤ dp + 1 →
      next.drop (dp + 1) = rest → ValueScanned (scanValue sep fuel next (head ++ [byte]).length
        (dp + 1)) (head ++ [byte]) next.length read) :
    ValueScanned (store data head.length byte >>= fun next =>
        scanValue sep fuel next (head.length + 1) (dp + 1)) head data.length
      (read.map fun result => (byte :: result.1, result.2)) := by
  have inside := congrArg List.length ahead
  rw [List.length_drop, List.length_cons] at inside
  obtain ⟨next, stored, text, length, kept⟩ := store_behind behind (by omega) byte
  have after := scanned next text (by rw [List.length_append]; exact Nat.succ_le_succ order)
    ((kept _ (by omega)).trans (tail_ahead ahead))
  rw [List.length_append, List.length_singleton, length] at after
  rw [stored, Exec.ok_bind]
  cases read with
  | none => exact after
  | some read =>
    obtain ⟨final, stop, outcome⟩ := after
    exact ⟨final, stop, by simpa using outcome⟩

end

theorem scanValue_scanned (sep : UInt8) (behind : head <+: data) (order : head.length ≤ dp)
    (ahead : data.drop dp = text) (enough : text.length < fuel) :
    ValueScanned (scanValue sep fuel data head.length dp) head data.length
      (readValue sep text) := by
  obtain ⟨fuel, rfl⟩ : ∃ less, fuel = less + 1 := ⟨fuel - 1, by omega⟩
  induction text using readValue.induct sep generalizing head data dp fuel with
  | case1 =>
    rw [scanValue, load_ahead_nil ahead]
    rfl
  | case2 byte text stops =>
    rw [readValue_stop stops]
    exact scanValue_stop behind order ahead stops
  | case3 continues =>
    rw [readValue_escape_end continues, scanValue, load_ahead ahead]
    simp only [bind, Except.bind, continues, if_false, if_true, load_ahead_nil (tail_ahead ahead)]
    rfl
  | case4 next text notNul continues induction =>
    have later := tail_ahead ahead
    rw [List.length_cons] at enough
    obtain ⟨fuel, rfl⟩ : ∃ less, fuel = less + 1 := ⟨fuel - 1, by omega⟩
    rw [readValue_escape continues notNul, scanValue, load_ahead ahead]
    simp only [Exec.ok_bind, continues, notNul, ne_eq, not_false_eq_true, if_false, if_true,
      pure_bind, load_ahead later]
    apply scanValue_take behind (by omega) later
    intro moved text order rest
    exact induction text order rest fuel (by rw [List.length_cons] at enough; omega)
  | case5 next text nul continues =>
    cases not_not.mp nul
    rw [List.length_cons] at enough
    obtain ⟨fuel, rfl⟩ : ∃ less, fuel = less + 1 := ⟨fuel - 1, by omega⟩
    rw [readValue_escape_nul continues, scanValue, load_ahead ahead]
    simp only [Exec.ok_bind, continues, ne_eq, not_true_eq_false, if_false, if_true, pure_bind,
      load_ahead (tail_ahead ahead), load_ahead ahead]
    refine @scanValue_take _ _ _ _ _ _ behind order ahead _ (some ([], 0 :: text)) ?_
    intro moved text order rest
    exact scanValue_stop text order rest (.inl rfl)
  | case6 byte text continues plain induction =>
    rw [List.length_cons] at enough
    obtain ⟨fuel, rfl⟩ : ∃ less, fuel = less + 1 := ⟨fuel - 1, by omega⟩
    rw [readValue_plain continues plain, scanValue, load_ahead ahead]
    simp only [Exec.ok_bind, continues, plain, if_false, pure_bind, load_ahead ahead]
    apply scanValue_take behind order ahead
    intro moved text order rest
    exact induction text order rest fuel (by omega)

/-! ## One entry -/

/-- The outcome of parsing one entry of a block of the given length: it runs off
the end, or stands in front of the rest of the text. -/
def EntryParsed (result : Exec (ImportEvent × List UInt8 × Nat)) (length : Nat) :
    Option (ImportEvent × List UInt8) → Prop
  | none => result = .error .outOfBounds
  | some (event, rest) => ∃ before : List UInt8,
      result = .ok (event, before ++ rest, before.length) ∧ (before ++ rest).length = length

theorem scan_text (continues : UInt8 → Bool) (before text : List UInt8) :
    scanWhile continues (before ++ text) ((before ++ text).length + 1) before.length =
      match text.dropWhile continues with
      | [] => .error .outOfBounds
      | _ :: _ => .ok (before ++ text.takeWhile continues).length := by
  rw [scanWhile_cut (by simp only [List.length_append]; omega), List.length_append]
  cases text.dropWhile continues <;> simp

theorem ofBytes_of_nulFree (nulFree : 0 ∉ bytes) : CString.ofBytes bytes = ⟨bytes, nulFree⟩ :=
  CString.ext (CString.ofBytes_bytes nulFree)

variable {sep stop : UInt8} {start name data after : List UInt8}

theorem EntryParsed.intro (ahead : data.drop dp = rest) (inside : dp ≤ data.length) :
    EntryParsed (.ok (event, data, dp)) data.length (some (event, rest)) := by
  refine ⟨data.take dp, ?_, ?_⟩
  · rw [← ahead, List.take_append_drop, List.length_take, Nat.min_eq_left inside]
  · rw [← ahead, List.take_append_drop]

theorem parseAfterName_parsed (behind : start ++ name <+: data)
    (ahead : data.drop (start ++ name).length = stop :: after) (nulFree : 0 ∉ name) :
    EntryParsed (parseAfterName sep data start.length (start ++ name).length) data.length
      (readAfterName sep (.ofBytes name) stop after) := by
  have inside := congrArg List.length ahead
  rw [List.length_drop, List.length_cons] at inside
  obtain ⟨ended, stored, terminated, length, kept⟩ := store_behind behind (by omega) 0
  have named {later : List UInt8} (longer : start ++ name ++ [0] <+: later) :
      loadString later start.length = .ok ⟨name, nulFree⟩ := loadString_behind longer nulFree
  have rest : ended.drop ((start ++ name).length + 1) = after :=
    (kept _ (Nat.lt_succ_self _)).trans (tail_ahead ahead)
  rw [ofBytes_of_nulFree nulFree, readAfterName.eq_def, parseAfterName, load_ahead ahead, ← length]
  by_cases nul : stop = 0
  · subst nul
    simp only [Exec.ok_bind, isDeletion, if_true, show ¬ ((0 : UInt8) = equalsSign) by decide,
      if_false, stored, named terminated]
    exact .intro rest (by omega)
  simp only [Exec.ok_bind, isDeletion, nul, if_false]
  cases after with
  | nil =>
    rw [load_ahead_nil (tail_ahead ahead)]
    exact Eq.refl (Except.error Fault.outOfBounds)
  | cons next tail =>
    have room := congrArg List.length rest
    rw [List.length_drop, List.length_cons] at room
    rw [load_ahead (tail_ahead ahead)]
    by_cases deletes : next = 0 ∨ stop = sep ∨ next = sep
    · have verdict : (decide (next = 0) || decide (stop = sep) || decide (next = sep)) = true := by
        simpa [or_assoc] using deletes
      simp only [Exec.ok_bind, Except.map, verdict, deletes, if_true, stored]
      by_cases equals : stop = equalsSign
      · obtain ⟨final, storedAgain, longer, sameLength, keptAgain⟩ :=
          store_behind terminated (by rw [List.length_append, List.length_singleton]; omega) 0
        rw [List.length_append, List.length_singleton] at storedAgain keptAgain
        have loaded := named ((List.prefix_append _ _).trans longer)
        simp only [equals, if_true, storedAgain, Exec.ok_bind, loaded]
        rw [← sameLength] at room ⊢
        exact .intro ((keptAgain _ (Nat.lt_succ_self _)).trans (tail_ahead rest)) (by omega)
      · simp only [equals, if_false, named terminated, Exec.ok_bind]
        exact .intro rest (by omega)
    · have verdict : (decide (next = 0) || decide (stop = sep) || decide (next = sep)) = false := by
        simpa [not_or, and_assoc] using deletes
      have cursor : (start ++ name).length + 1 = (start ++ name ++ [0]).length := by
        simp [Nat.add_assoc]
      rw [cursor] at rest
      have scanned := scanValue_scanned sep terminated le_rfl rest
        (by rw [← rest, List.length_drop]; omega : _ < ended.length + 1)
      simp only [Exec.ok_bind, Except.map, verdict, deletes, Bool.false_eq_true, if_false, stored,
        cursor]
      cases read : readValue sep (next :: tail) with
      | none =>
        rw [read] at scanned
        change _ = _ at scanned
        rw [scanned]
        exact Eq.refl (Except.error Fault.outOfBounds)
      | some result =>
        obtain ⟨value, remaining⟩ := result
        rw [read] at scanned
        obtain ⟨moved, dp, outcome, text, atEnd, order, sameLength⟩ := scanned
        obtain ⟨valueNulFree, nonempty⟩ := readValue_spec read
        obtain ⟨terminator, remaining, rfl⟩ := List.exists_cons_of_ne_nil nonempty
        have more := congrArg List.length atEnd
        rw [List.length_drop, List.length_cons] at more
        obtain ⟨final, storedValue, whole, finalLength, keptValue⟩ :=
          store_behind text (by omega) 0
        have loaded := named (((List.prefix_append _ _).trans (List.prefix_append _ _)).trans whole)
        simp only [outcome, Exec.ok_bind, storedValue, loaded, loadString_behind whole valueNulFree]
        rw [ofBytes_of_nulFree valueNulFree, ← sameLength, ← finalLength]
        rw [← finalLength] at more
        exact .intro ((keptValue _ (by omega)).trans (tail_ahead atEnd)) (by omega)

theorem nameBytes_nulFree (sep : UInt8) (text : List UInt8) :
    0 ∉ text.takeWhile (isNameByte sep) := by
  intro member
  have tested := List.mem_takeWhile_imp member
  simp [isNameByte] at tested

theorem parseEntry_parsed (sep : UInt8) (before text : List UInt8) :
    EntryParsed (parseEntry sep (before ++ text) before.length) (before ++ text).length
      (readEntry sep text) := by
  have blanks := scan_text isblank before text
  have split : text.takeWhile isblank ++ text.dropWhile isblank = text :=
    List.takeWhile_append_dropWhile
  rw [parseEntry, skipBlanks, blanks, readEntry]
  cases afterBlanks : text.dropWhile isblank with
  | nil => exact Eq.refl (Except.error Fault.outOfBounds)
  | cons first rest =>
    rw [afterBlanks] at split
    generalize text.takeWhile isblank = skipped at split
    subst split
    rw [← List.append_assoc]
    generalize before ++ skipped = start
    simp only [bind, Except.bind, load_cut]
    by_cases comment : first = hashSign
    · have scanned := scan_text (isCommentByte sep) start (first :: rest)
      have commentSplit : (first :: rest).takeWhile (isCommentByte sep) ++
          (first :: rest).dropWhile (isCommentByte sep) = first :: rest :=
        List.takeWhile_append_dropWhile
      simp only [if_pos comment, skipComment, scanned]
      cases afterComment : (first :: rest).dropWhile (isCommentByte sep) with
      | nil => exact Eq.refl (Except.error Fault.outOfBounds)
      | cons stop after =>
        rw [afterComment] at commentSplit
        generalize (first :: rest).takeWhile (isCommentByte sep) = body at commentSplit ⊢
        rw [← commentSplit]
        refine ⟨start ++ body ++ [stop], ?_, by simp⟩
        simp [pure, Except.pure, Nat.add_assoc]
    · have scanned := scan_text (isNameByte sep) start (first :: rest)
      have nameSplit : (first :: rest).takeWhile (isNameByte sep) ++
          (first :: rest).dropWhile (isNameByte sep) = first :: rest :=
        List.takeWhile_append_dropWhile
      have nulFree := nameBytes_nulFree sep (first :: rest)
      simp only [if_neg comment, scanName, scanned]
      cases afterName : (first :: rest).dropWhile (isNameByte sep) with
      | nil => exact Eq.refl (Except.error Fault.outOfBounds)
      | cons stop after =>
        rw [afterName] at nameSplit
        generalize (first :: rest).takeWhile (isNameByte sep) = name at nameSplit nulFree ⊢
        rw [← nameSplit, ← List.append_assoc]
        exact parseAfterName_parsed (List.prefix_append _ _) (List.drop_left ..) nulFree

end UBootV210.Environment
