import UBootV210.Environment.Getenv
import UBootV210.Environment.HashTableRoundTrip

/-! # Reads before and after the import

`getenv_f` reads the exported bytes as they are, `himport_r` takes the escapes out
of them. -/

namespace UBootV210.Environment

open CheckedMemory

variable {image : List UInt8}

theorem entryEnd_ahead (ahead : image.drop nxt = bytes ++ 0 :: rest) (nulFree : 0 ∉ bytes)
    (inside : nxt + bytes.length ≤ envSize) (enough : bytes.length < fuel) :
    entryEnd envSize image fuel nxt = .ok (some (nxt + bytes.length)) := by
  induction bytes generalizing nxt fuel with
  | nil =>
    obtain ⟨fuel, rfl⟩ : ∃ less, fuel = less + 1 := ⟨fuel - 1, by omega⟩
    rw [entryEnd, load_ahead ahead]
    rfl
  | cons byte bytes induction =>
    obtain ⟨fuel, rfl⟩ : ∃ less, fuel = less + 1 := ⟨fuel - 1, by omega⟩
    rw [List.mem_cons, not_or] at nulFree
    rw [List.length_cons] at inside enough ⊢
    rw [entryEnd, load_ahead ahead, Exec.ok_bind, if_neg fun nul => nulFree.1 nul.symm,
      if_neg (by omega), induction (tail_ahead ahead) nulFree.2 (by omega) (by omega)]
    congr 2
    omega

theorem envmatch_ahead (ahead : image.drop i2 = key ++ equalsSign :: rest)
    (keyEquals : equalsSign ∉ key) (keyNul : 0 ∉ key) (nameEquals : equalsSign ∉ name) :
    envmatch image name i2 = .ok (if name = key then some (i2 + key.length + 1) else none) := by
  induction name generalizing key i2 with
  | nil =>
    cases key with
    | nil =>
      rw [envmatch, load_ahead ahead]
      rfl
    | cons byte key =>
      rw [List.mem_cons, not_or] at keyEquals keyNul
      rw [envmatch, load_ahead ahead, Exec.ok_bind, if_neg fun nul => keyNul.1 nul.symm,
        if_neg fun same => keyEquals.1 same.symm]
      rfl
  | cons first name induction =>
    rw [List.mem_cons, not_or] at nameEquals
    have ordinary : first ≠ equalsSign := fun same => nameEquals.1 same.symm
    cases key with
    | nil =>
      rw [envmatch, load_ahead ahead, Exec.ok_bind, if_neg ordinary]
      rfl
    | cons byte key =>
      rw [List.mem_cons, not_or] at keyEquals keyNul
      rw [envmatch, load_ahead ahead, Exec.ok_bind]
      by_cases same : first = byte
      · rw [if_pos same, if_neg ordinary,
          induction (tail_ahead ahead) keyEquals.2 keyNul.2 nameEquals.2]
        simp only [List.length_cons, same, List.cons.injEq, true_and,
          Nat.add_right_comm, Nat.add_assoc]
      · rw [if_neg same, if_neg fun equal => same (List.cons.inj equal).1]
        rfl

theorem copyOut_ahead (ahead : image.drop val = bytes ++ 0 :: rest) (nulFree : 0 ∉ bytes)
    (enough : bytes.length < room) :
    copyOut image len room val buf = .ok ⟨(buf ++ bytes).length, buf ++ bytes ++ [0]⟩ := by
  induction bytes generalizing val room buf with
  | nil =>
    obtain ⟨room, rfl⟩ : ∃ less, room = less + 1 := ⟨room - 1, by omega⟩
    rw [copyOut, load_ahead ahead, List.append_nil]
    rfl
  | cons byte bytes induction =>
    obtain ⟨room, rfl⟩ : ∃ less, room = less + 1 := ⟨room - 1, by omega⟩
    rw [List.mem_cons, not_or] at nulFree
    rw [List.length_cons] at enough
    rw [copyOut, load_ahead ahead, Exec.ok_bind, if_neg fun nul => nulFree.1 nul.symm,
      induction (tail_ahead ahead) nulFree.2 (by omega)]
    simp

/-! ## The scan of an exported text -/

variable {bytes : List UInt8}

theorem escape_nulFree (nulFree : 0 ∉ bytes) : 0 ∉ escape 0 bytes := by
  intro member
  obtain ⟨byte, inBytes, escaped⟩ := List.mem_flatMap.mp member
  rw [escapeByte] at escaped
  cases needed : needsEscape 0 byte with
  | true =>
    rw [needed] at escaped
    simp only [cond_true, List.mem_cons, List.not_mem_nil, or_false] at escaped
    rcases escaped with isBackslash | same
    · exact absurd isBackslash (by decide)
    · exact nulFree (same ▸ inBytes)
  | false =>
    rw [needed] at escaped
    simp only [cond_false, List.mem_singleton] at escaped
    exact nulFree (escaped ▸ inBytes)

def scanned : Option ExportEntry → GetenvResult
  | none => ⟨-1, []⟩
  | some entry =>
      ⟨(escape 0 entry.data.bytes).length, escape 0 entry.data.bytes ++ [0]⟩

theorem getenvLoop_exportText (nameEquals : equalsSign ∉ name.bytes)
    (ahead : image.drop start = exportText 0 entries ++ 0 :: padding)
    (exportable : ∀ entry ∈ entries, Exportable 0 entry)
    (fits : ∀ entry ∈ entries, entry.key = name → (escape 0 entry.data.bytes).length < len)
    (enough : entries.length < fuel) (inside : image.length ≤ envSize) :
    getenvLoop envSize image name len fuel start =
      .ok (scanned (entries.find? fun entry => entry.key = name)) := by
  induction entries generalizing fuel start with
  | nil =>
    obtain ⟨fuel, rfl⟩ : ∃ less, fuel = less + 1 := ⟨fuel - 1, by omega⟩
    rw [getenvLoop, load_ahead ahead]
    rfl
  | cons entry entries induction =>
    obtain ⟨fuel, rfl⟩ : ∃ less, fuel = less + 1 := ⟨fuel - 1, by omega⟩
    rw [List.length_cons] at enough
    have line := exportable entry List.mem_cons_self
    -- the entry, then everything behind its NUL
    let text := entry.key.bytes ++ equalsSign :: escape 0 entry.data.bytes
    have shape : exportText 0 (entry :: entries) ++ 0 :: padding =
        text ++ 0 :: (exportText 0 entries ++ 0 :: padding) := by
      simp [exportText, exportLine, text]
    rw [shape] at ahead
    have textNulFree : 0 ∉ text := by
      simp only [text, List.mem_append, List.mem_cons, not_or]
      exact ⟨entry.key.nulFree, by decide, escape_nulFree entry.data.nulFree⟩
    have length := congrArg List.length ahead
    rw [List.length_drop, List.length_append, List.length_cons] at length
    obtain ⟨byte, tail, first, notNul⟩ : ∃ byte tail, text = byte :: tail ∧ byte ≠ 0 := by
      cases first : text with
      | nil => simp [text] at first
      | cons byte tail => exact ⟨byte, tail, rfl, fun nul => textNulFree (by simp [first, nul])⟩
    have loaded : load image start = .ok byte := load_ahead (ahead.trans (by rw [first]; rfl))
    have atKey : image.drop start = entry.key.bytes ++ equalsSign ::
        (escape 0 entry.data.bytes ++ 0 :: (exportText 0 entries ++ 0 :: padding)) := by
      simpa [text] using ahead
    rw [getenvLoop, loaded, Exec.ok_bind, if_neg notNul,
      entryEnd_ahead ahead textNulFree (by omega) (by omega), Exec.ok_bind]
    dsimp only
    rw [envmatch_ahead atKey line.key.equals entry.key.nulFree nameEquals, Exec.ok_bind]
    by_cases same : name.bytes = entry.key.bytes
    · have isKey : entry.key = name := CString.ext same.symm
      rw [if_pos same, List.find?_cons_of_pos (by simpa using isKey)]
      exact copyOut_ahead (tail_ahead (drop_ahead _ atKey))
        (escape_nulFree entry.data.nulFree) (fits entry List.mem_cons_self isKey)
    · have other : entry.key ≠ name := fun isKey => same (by rw [isKey])
      rw [if_neg same, List.find?_cons_of_neg (by simpa using other)]
      exact induction (tail_ahead (drop_ahead text ahead))
        (fun other member => exportable other (List.mem_cons_of_mem _ member))
        (fun other member => fits other (List.mem_cons_of_mem _ member)) (by omega)

variable {entries : List ExportEntry}

theorem getenvF_exportText (nameEquals : equalsSign ∉ name.bytes)
    (exportable : ∀ entry ∈ entries, Exportable 0 entry)
    (fits : ∀ entry ∈ entries, entry.key = name → (escape 0 entry.data.bytes).length < len)
    (inside : (exportText 0 entries ++ 0 :: List.replicate padding 0).length ≤ envSize) :
    (getenvF envSize (exportText 0 entries ++ 0 :: List.replicate padding 0) name len).map
        GetenvResult.value =
      .ok ((entries.find? fun entry => entry.key = name).map fun entry =>
        .ofBytes (escape 0 entry.data.bytes)) := by
  have enough :
      entries.length < (exportText 0 entries ++ 0 :: List.replicate padding 0).length + 1 := by
    have bound := twice_length_le_plainLength entries
    have length := length_exportText 0 entries
    rw [List.length_append]
    omega
  rw [getenvF, getenvLoop_exportText nameEquals rfl exportable fits enough inside]
  cases entries.find? fun entry => entry.key = name with
  | none => rfl
  | some entry =>
    have ret : ¬ ((escape 0 entry.data.bytes).length : Int) < 0 := by omega
    have string : CString.ofBytes (escape 0 entry.data.bytes ++ [0]) =
        .ofBytes (escape 0 entry.data.bytes) := by
      have nulFree := escape_nulFree entry.data.nulFree
      rw [CString.ofBytes_cut nulFree, ofBytes_of_nulFree nulFree]
    simp only [scanned, Except.map, GetenvResult.value, if_neg ret, string, Option.map_some]

namespace HSearchData.Searchable

variable {htab : HSearchData} {name value : CString}

theorem getenv_eq_some_iff (searchable : htab.Searchable) :
    getenv htab name = some value ↔ htab.Stores name value := by
  have answers (stored : CString) (stores : htab.Stores name stored) :
      getenv htab name = some stored := by
    obtain ⟨idx, lower, upper, live, searched⟩ :=
      searchable.find_stored permissiveHooks .succeeds 0 none stores
    have held := searchable.holds lower upper live
    rw [getenv, perform, searched]
    simp [Except.map, observe, HSearchReturn.success, held.data]
  constructor
  · intro found
    by_cases stored : ∃ other, htab.Stores name other
    · obtain ⟨other, stores⟩ := stored
      have same := (answers other stores).symm.trans found
      cases same
      exact stores
    · have absent : htab.Absent name := fun other stores => stored ⟨other, stores⟩
      rw [getenv, perform, searchable.find_absent permissiveHooks .succeeds 0 none absent] at found
      cases found
  · exact answers value

end HSearchData.Searchable

theorem Fills.enterAll_stores (accepting : hooks.Accepting)
    (distinct : (entries.map ExportEntry.key).Nodup) (fills : Fills htab contents)
    (unset : ∀ entry ∈ entries, contents entry.key = none) :
    ∃ final after, Environment.enterAll hooks flag entries htab = .ok final ∧
      Fills final after ∧ ∀ key value, after key = some value →
        contents key = some value ∨ ⟨key, value⟩ ∈ entries := by
  induction entries generalizing htab contents with
  | nil => exact ⟨htab, contents, rfl, fills, fun _ _ found => .inl found⟩
  | cons entry entries induction =>
    rw [List.map_cons, List.nodup_cons] at distinct
    by_cases room : htab.filled.toNat < htab.size.toNat
    · obtain ⟨result, next, entered, nextFills, -, -⟩ := fills.enter hooks accepting
        (unset entry List.mem_cons_self) entry.data flag room
      obtain ⟨final, after, rest, finalFills, stores⟩ := induction distinct.2 nextFills
        (storeEntry_unset distinct.1 unset)
      refine ⟨final, after, ?_, finalFills, ?_⟩
      · rw [Environment.enterAll, entered]
        exact rest
      · intro key value found
        rcases stores key value found with stored | member
        · by_cases same : key = entry.key
          · subst same
            rw [Function.update_self] at stored
            cases stored
            exact .inr List.mem_cons_self
          · rw [Function.update_of_ne same] at stored
            exact .inl stored
        · exact .inr (List.mem_cons_of_mem _ member)
    · have full : htab.filled = htab.size := by
        have bound := fills.represents.invariant.filled_le_size
        exact UInt32.toNat_inj.mp (by omega)
      obtain ⟨idx, stops, searched⟩ := fills.represents.invariant.enter_absent hooks .succeeds
        flag entry.data (fills.represents.absent_iff.mpr (unset entry List.mem_cons_self))
      rw [createEntry_full _ _ _ _ _ _ _ _ full] at searched
      obtain ⟨final, after, rest, finalFills, stores⟩ := induction distinct.2 fills
        fun other member => unset other (List.mem_cons_of_mem _ member)
      refine ⟨final, after, ?_, finalFills, fun key value found => ?_⟩
      · rw [Environment.enterAll, searched]
        exact rest
      · exact (stores key value found).imp_right (List.mem_cons_of_mem _)

/-! ## Agreement -/

theorem needsEscape_of_notMem (nulFree : 0 ∉ bytes) (plain : backslash ∉ bytes) :
    ∀ byte ∈ bytes, needsEscape 0 byte = false := by
  intro byte member
  have notNul : byte ≠ 0 := by
    rintro rfl
    exact nulFree member
  have notBackslash : byte ≠ backslash := by
    rintro rfl
    exact plain member
  simp [needsEscape, notNul, notBackslash]

theorem escape_eq_self_iff (nulFree : 0 ∉ bytes) : escape 0 bytes = bytes ↔ backslash ∉ bytes := by
  constructor
  · intro same member
    have length := length_escape 0 bytes
    rw [same] at length
    have none : bytes.countP (needsEscape 0) = 0 := by omega
    exact List.countP_eq_zero.mp none backslash member rfl
  · intro plain
    have ordinary := needsEscape_of_notMem nulFree plain
    clear nulFree plain
    induction bytes with
    | nil => rfl
    | cons byte bytes induction =>
      have rest := induction fun other member => ordinary other (List.mem_cons_of_mem _ member)
      rw [escape, List.flatMap_cons, ← escape, rest, escapeByte, ordinary byte List.mem_cons_self]
      rfl

def ReadsAgree (envSize : Nat) (image : List UInt8) (htab imported : HSearchData) : Prop :=
  ∀ name len, equalsSign ∉ name.bytes → (∀ value, htab.Stores name value → value.length < len) →
    (getenvF envSize image name len).map GetenvResult.value = .ok (getenv imported name)

variable {key : CString}

theorem find?_entries (distinct : (entries.map ExportEntry.key).Nodup)
    (member : ⟨key, value⟩ ∈ entries) :
    entries.find? (fun entry => entry.key = key) = some ⟨key, value⟩ := by
  induction entries with
  | nil => cases member
  | cons entry entries induction =>
    rw [List.map_cons, List.nodup_cons] at distinct
    cases member with
    | head => exact List.find?_cons_of_pos (by simp)
    | tail _ later =>
      have other : entry.key ≠ key := by
        rintro rfl
        exact distinct.1 (List.mem_map.mpr ⟨_, later, rfl⟩)
      rw [List.find?_cons_of_neg (by simpa using other)]
      exact induction distinct.2 later

theorem find?_entries_eq_none (missing : ∀ value, ⟨key, value⟩ ∉ entries) :
    entries.find? (fun entry => entry.key = key) = none := by
  rw [List.find?_eq_none]
  intro entry member same
  have isKey : entry.key = key := by simpa using same
  subst isKey
  exact missing entry.data member

section

variable {envSize : Nat} {htab final : HSearchData} {entries : List ExportEntry} {padding : Nat}
  (finalSearchable : final.Searchable) (distinct : (entries.map ExportEntry.key).Nodup)
  (exportable : ∀ entry ∈ entries, Exportable 0 entry)
  (inside : (exportText 0 entries ++ 0 :: List.replicate padding 0).length ≤ envSize)
  (listed : ∀ key value, ⟨key, value⟩ ∈ entries ↔ htab.Stores key value)

include finalSearchable distinct exportable inside listed

theorem ReadsAgree.stores
    (agree : ReadsAgree envSize (exportText 0 entries ++ 0 :: List.replicate padding 0) htab final)
    (stored : ∀ key value, final.Stores key value → ⟨key, value⟩ ∈ entries)
    (stores : htab.Stores key value) :
    backslash ∉ value.bytes ∧ final.Stores key value := by
  have member := (listed key value).mpr stores
  have unique (other : CString) (otherMember : ⟨key, other⟩ ∈ entries) : other = value := by
    have same := (find?_entries distinct otherMember).symm.trans (find?_entries distinct member)
    cases same
    rfl
  -- a buffer with room for the escapes
  have read := agree key (value.length + (escape 0 value.bytes).length + 1)
    (exportable _ member).key.equals (fun other otherStores => by
      rw [unique other ((listed key other).mpr otherStores)]
      omega)
  rw [getenvF_exportText (exportable _ member).key.equals exportable _ inside,
    find?_entries distinct member] at read
  · have found : final.Stores key (.ofBytes (escape 0 value.bytes)) :=
      finalSearchable.getenv_eq_some_iff.mp (Except.ok.inj read).symm
    have same := unique _ (stored _ _ found)
    have bytes : escape 0 value.bytes = value.bytes := by
      rw [← CString.ofBytes_bytes (escape_nulFree value.nulFree), same]
    rw [same] at found
    exact ⟨(escape_eq_self_iff value.nulFree).mp bytes, found⟩
  · intro entry entryMember isKey
    subst isKey
    rw [unique entry.data entryMember]
    omega

theorem readsAgree_of_plain (stored : ∀ key value, final.Stores key value ↔ ⟨key, value⟩ ∈ entries)
    (plain : ∀ key value, htab.Stores key value → backslash ∉ value.bytes) :
    ReadsAgree envSize (exportText 0 entries ++ 0 :: List.replicate padding 0) htab final := by
  intro name len nameEquals larger
  have unescaped (entry : ExportEntry) (member : entry ∈ entries) :
      escape 0 entry.data.bytes = entry.data.bytes :=
    (escape_eq_self_iff entry.data.nulFree).mpr
      (plain entry.key entry.data ((listed _ _).mp member))
  rw [getenvF_exportText nameEquals exportable _ inside]
  · by_cases present : ∃ value, ⟨name, value⟩ ∈ entries
    · obtain ⟨value, member⟩ := present
      rw [find?_entries distinct member, finalSearchable.getenv_eq_some_iff.mpr
        ((stored name value).mpr member), Option.map_some, unescaped _ member,
        CString.ofBytes_self]
    · have missing : ∀ value, ⟨name, value⟩ ∉ entries := not_exists.mp present
      rw [find?_entries_eq_none missing]
      cases found : getenv final name with
      | none => rfl
      | some value =>
        exact absurd ((stored name value).mp (finalSearchable.getenv_eq_some_iff.mp found))
          (missing value)
  · intro entry member isKey
    subst isKey
    rw [unescaped entry member]
    exact larger entry.data ((listed _ _).mp member)

end

/-- The reads before and after an import agree exactly if no value has a backslash and the
new table has a slot for every entry. -/
theorem reads_agree_iff (hooks : Hooks) (accepting : hooks.Accepting)
    {allocations : Nat → Allocation} (allocated : ∀ offset, allocations offset = .succeeds)
    {htab : HSearchData} (searchable : htab.Searchable)
    (exportable : ∀ key value, htab.Stores key value → Exportable 0 ⟨key, value⟩)
    {available : Bool} {size : UInt32} {buffer : ExportBuffer}
    (exported : hexportR htab 0 0 available size [] = .ok (some buffer)) {envSize : Nat}
    (image : buffer.size ≤ envSize) (previous : Option HSearchData) :
    (∃ imported, himportR hooks true true allocations previous buffer.contents 0 0 [] =
        .ok ⟨1, some imported⟩ ∧ ReadsAgree envSize buffer.contents htab imported) ↔
      htab.entries.length ≤ importCapacity buffer.size ∧
        ∀ key value, htab.Stores key value → backslash ∉ value.bytes := by
  obtain ⟨entries, padding, perm, contents, length⟩ := hexportR_written searchable exported
  have listed (key value : CString) : ⟨key, value⟩ ∈ entries ↔ htab.Stores key value := by
    rw [perm.mem_iff, HSearchData.Searchable.mem_entries_iff]
  have lines : ∀ entry ∈ entries, Exportable 0 entry := fun entry member =>
    exportable _ _ ((listed _ _).mp member)
  have distinct : (entries.map ExportEntry.key).Nodup :=
    (perm.map ExportEntry.key).nodup_iff.mpr searchable.entries_distinct
  have plain : PlainSeparator 0 := ⟨by decide, by decide⟩
  obtain ⟨tableSize, valid, capacity, imports⟩ :=
    himportR_exportText hooks allocations allocated plain previous padding lines
  obtain ⟨final, after, entered, fills, stored⟩ := (emptyTable_fills valid).enterAll_stores
    accepting distinct fun _ _ => rfl
  have inside : (exportText 0 entries ++ 0 :: List.replicate padding 0).length ≤ envSize := by
    rw [← contents, length]
    exact image
  have finalStores (key value : CString) (stores : final.Stores key value) :
      ⟨key, value⟩ ∈ entries := by
    rcases stored key value ((fills.represents.stores key value).mp stores) with old | member
    · cases old
    · exact member
  have finalSearchable := fills.represents.invariant.toSearchable
  rw [entered] at imports
  rw [← contents, length] at capacity
  rw [← contents] at imports
  constructor
  · rintro ⟨imported, importedEq, agree⟩
    cases imports.symm.trans importedEq
    rw [contents] at agree
    have kept (key value : CString) (stores : htab.Stores key value) :=
      agree.stores finalSearchable distinct lines inside listed finalStores stores
    refine ⟨?_, fun key value stores => (kept key value stores).1⟩
    apply length_entries_le_importCapacity hooks allocations allocated searchable (.inl rfl)
      exportable exported imports
    apply searchable.lookup_eq hooks finalSearchable
    intro key value
    exact ⟨fun stores => (listed key value).mp (finalStores key value stores),
      fun stores => (kept key value stores).2⟩
  · rintro ⟨room, plainValues⟩
    refine ⟨final, imports, ?_⟩
    rw [contents]
    have fits : entries.length ≤ tableSize.toNat := by
      rw [perm.length_eq, capacity]
      exact room
    obtain ⟨whole, enteredWhole, -, wholeStores⟩ :=
      enterAll_emptyTable hooks accepting valid distinct fits
    cases entered.symm.trans enteredWhole
    exact readsAgree_of_plain finalSearchable distinct lines inside listed wholeStores plainValues

def exportOne (value : CString) : Exec (HSearchData × Option ExportBuffer) := do
  let htab ← enterAll permissiveHooks 0 [⟨letter 97, value⟩] (emptyTable 67)
  let buffer ← hexportR htab 0 0 true 0 []
  return (htab, buffer)

/-- The variable `a` with the value `x`. -/
theorem reads_agree_iff_plain : ∃ htab buffer imported,
      enterAll permissiveHooks 0 [⟨letter 97, letter 120⟩] (emptyTable 67) = .ok htab ∧
      hexportR htab 0 0 true 0 [] = .ok (some buffer) ∧
      himportR permissiveHooks true true (fun _ => .succeeds) none buffer.contents 0 0 [] =
        .ok ⟨1, some imported⟩ ∧
      ReadsAgree 131072 buffer.contents htab imported := by
  obtain ⟨tableSize, created, valid, -⟩ := @hcreateR_importRange 64 (by decide) (by decide)
  cases hcreateR_sixtyFour.symm.trans created
  obtain ⟨htab, entered, searchable, stores⟩ := @enterAll_emptyTable permissiveHooks
    permissiveHooks_accepting 67 valid [⟨letter 97, letter 120⟩] (by decide) (by decide)
  obtain ⟨⟨other, result⟩, exports, sized⟩ : ∃ result, exportOne (letter 120) = .ok result ∧
      result.2.map ExportBuffer.size = some 7 := Exec.Returns.exists (by decide +kernel)
  rw [exportOne, entered, Exec.ok_bind] at exports
  obtain ⟨_, exported, same⟩ := Exec.bind_eq_ok_iff.mp exports
  cases same
  obtain ⟨buffer, rfl, size⟩ := Option.map_eq_some_iff.mp sized
  have only (key value : CString) (stored : htab.Stores key value) :
      key = letter 97 ∧ value = letter 120 := by
    have member := (stores key value).mp stored
    rw [List.mem_singleton] at member
    cases member
    exact ⟨rfl, rfl⟩
  have exportable : ∀ key value, htab.Stores key value → Exportable 0 ⟨key, value⟩ := by
    intro key value stored
    obtain ⟨rfl, rfl⟩ := only key value stored
    refine ⟨⟨by decide, by decide, by decide, ?_⟩, by decide⟩
    intro byte head
    cases head
    decide
  have perm := searchable.entries_perm (by decide) stores
  have image : buffer.size ≤ 131072 := by rw [size]; decide
  have agree := reads_agree_iff permissiveHooks permissiveHooks_accepting (fun _ => rfl)
    searchable exportable exported image none
  obtain ⟨imported, imports, reads⟩ := agree.mpr (by
    refine ⟨?_, fun key value stored => ?_⟩
    · rw [perm.length_eq, size]
      decide +kernel
    · obtain ⟨rfl, rfl⟩ := only key value stored
      decide)
  exact ⟨htab, buffer, imported, entered, exported, imports, reads⟩

/-- The variable `a` with one backslash as its value: `getenv_f` finds the two bytes that
the export wrote. -/
theorem reads_differ_on_backslash : (match exportOne (.ofBytes [backslash]) with
      | .ok (_, some buffer) =>
        match himportR permissiveHooks true true (fun _ => .succeeds) none buffer.contents
            0 0 [] with
        | .ok ⟨1, some imported⟩ =>
          ((getenvF 131072 buffer.contents (letter 97) 16).toOption.bind GetenvResult.value,
            getenv imported (letter 97))
        | _ => (none, none)
      | _ => (none, none)) =
      (some (.ofBytes [backslash, backslash]), some (.ofBytes [backslash])) := by
  decide +kernel

end UBootV210.Environment
