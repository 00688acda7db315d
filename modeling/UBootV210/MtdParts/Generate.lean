import UBootV210.Foundation.CheckedMemory
import UBootV210.MtdParts.Parse

/-! # Writing the partition table

An embedding of `generate_mtdparts` of common/cmd_mtdparts.c. -/

namespace UBootV210.MtdParts

open CheckedMemory

/-! ## `generate_mtdparts` -/

/-- The buffer, the place of the next character and the space that is left for the code. -/
structure Output where
  buf : List UInt8
  p : Nat
  maxlen : UInt32

/-- A piece of the code that writes. It returns `false` for `goto cleanup`. -/
abbrev Writing := Output → Exec (Bool × Output)

namespace Writing

def done : Writing := fun output => .ok (true, output)

def andThen (first second : Writing) : Writing := fun output => do
  let (room, output) ← first output
  if room then second output else return (false, output)

def when (condition : Bool) (writing : Writing) : Writing :=
  if condition then writing else done

end Writing

/-- Every item is written in this way: its length is compared with `maxlen` before. -/
def put (bytes : List UInt8) : Writing := fun output =>
  if output.maxlen.toNat < bytes.length then
    .ok (false, output)
  else do
    let buf ← storeAll output.buf output.p bytes
    return (true, ⟨buf, output.p + bytes.length, output.maxlen - UInt32.ofNat bytes.length⟩)

/-- A size goes through `tmpbuf`, which has 32 bytes. -/
def putSize (before : List UInt8) (size : UInt64) : Writing := fun output =>
  if (memsizeFormat size).length + 1 ≤ 32 then put (before ++ memsizeFormat size) output
  else .error .outOfBounds

def gap (prevPart : Option PartInfo) (part : PartInfo) : Bool :=
  match prevPart with
  | none => part.offset ≠ 0
  | some prevPart => prevPart.offset + prevPart.size ≠ part.offset

def putPart (numParts : UInt16) (prevPart : Option PartInfo) (partCnt : Nat) (part : PartInfo) :
    Writing :=
  (putSize [] part.size).andThen <|
  (Writing.when (gap prevPart part) (putSize [64] part.offset)).andThen <|
  (Writing.when (!part.autoName) (put (40 :: part.name.bytes ++ [41]))).andThen <|
  (Writing.when (part.maskFlags ≠ 0) (put [114, 111])).andThen <|
  Writing.when (partCnt < numParts.toNat) (put [44])

def putParts (numParts : UInt16) : Option PartInfo → Nat → List PartInfo → Writing
  | _, _, [] => Writing.done
  | prevPart, partCnt, part :: parts =>
      (putPart numParts prevPart (partCnt + 1) part).andThen <|
      putParts numParts (some part) (partCnt + 1) parts

def putDevices : List MtdDevice → Writing
  | [] => Writing.done
  | dev :: devices =>
      (put (dev.id.mtdId.bytes ++ [58])).andThen <|
      (putParts dev.numParts none 0 dev.parts).andThen <|
      (Writing.when (devices ≠ []) (put [59])).andThen <|
      putDevices devices

def mtdpartsPrefix : List UInt8 := [109, 116, 100, 112, 97, 114, 116, 115, 61]

/-- `generate_mtdparts`. The buffer is `last_parts`, as it is for every caller. -/
def generateMtdparts (devices : List MtdDevice) (buf : List UInt8) (buflen : UInt32) :
    Exec (Int × List UInt8) :=
  if devices = [] then do
    let buf ← store buf 0 0
    return (0, buf)
  else do
    let buf ← storeAll buf 0 (mtdpartsPrefix ++ [0])
    let (room, output) ← putDevices devices ⟨buf, 9, buflen - 1⟩
    if room then
      let buf ← store output.buf output.p 0
      return (0, buf)
    else
      let buf ← store output.buf 0 0
      return (1, buf)

def partPieces (numParts : UInt16) (prevPart : Option PartInfo) (partCnt : Nat)
    (part : PartInfo) : List (List UInt8) :=
  [memsizeFormat part.size] ++
  (if gap prevPart part then [64 :: memsizeFormat part.offset] else []) ++
  (if part.autoName then [] else [40 :: part.name.bytes ++ [41]]) ++
  (if part.maskFlags ≠ 0 then [[114, 111]] else []) ++
  (if partCnt < numParts.toNat then [[44]] else [])

def partsPieces (numParts : UInt16) :
    Option PartInfo → Nat → List PartInfo → List (List UInt8)
  | _, _, [] => []
  | prevPart, partCnt, part :: parts =>
      partPieces numParts prevPart (partCnt + 1) part ++
        partsPieces numParts (some part) (partCnt + 1) parts

def devicesPieces : List MtdDevice → List (List UInt8)
  | [] => []
  | dev :: devices =>
      [dev.id.mtdId.bytes ++ [58]] ++ partsPieces dev.numParts none 0 dev.parts ++
        (if devices ≠ [] then [[59]] else []) ++ devicesPieces devices

def mtdpartsText (devices : List MtdDevice) : List UInt8 :=
  if devices = [] then [] else mtdpartsPrefix ++ (devicesPieces devices).flatten

/-! ## The code writes the items one after the other -/

def putAll : List (List UInt8) → Writing
  | [] => Writing.done
  | piece :: pieces => (put piece).andThen (putAll pieces)

namespace Writing

theorem andThen_done (writing : Writing) : writing.andThen done = writing := by
  funext output
  rw [andThen]
  rcases writing output with fault | ⟨_ | _, next⟩ <;> rfl

theorem andThen_assoc (first second third : Writing) :
    (first.andThen second).andThen third = first.andThen (second.andThen third) := by
  funext output
  simp only [andThen]
  rcases first output with fault | ⟨_ | _, next⟩ <;> rfl

end Writing

theorem putAll_append : putAll (first ++ second) = (putAll first).andThen (putAll second) := by
  induction first with
  | nil => rfl
  | cons piece first induction =>
    rw [List.cons_append, putAll, putAll, induction, Writing.andThen_assoc]

theorem putAll_singleton (piece : List UInt8) : putAll [piece] = put piece :=
  Writing.andThen_done _

theorem putAll_when (piece : List UInt8) :
    putAll (if condition then [piece] else []) = Writing.when condition (put piece) := by
  cases condition with
  | false => rfl
  | true => exact putAll_singleton piece

theorem length_memsizeFormat_le (size : UInt64) : (memsizeFormat size).length ≤ 21 := by
  have digits := fun num => Library.length_decimal_le num
  rw [memsizeFormat]
  split
  · grind
  split
  · grind
  split
  · grind
  · exact (digits size).trans (by omega)

theorem putSize_eq (before : List UInt8) (size : UInt64) :
    putSize before size = put (before ++ memsizeFormat size) := by
  have short := length_memsizeFormat_le size
  funext output
  exact if_pos (by omega)

theorem putPart_eq : putPart numParts prevPart partCnt part =
      putAll (partPieces numParts prevPart partCnt part) := by
  have name : putAll (if part.autoName then [] else [40 :: part.name.bytes ++ [41]]) =
      Writing.when (!part.autoName) (put (40 :: part.name.bytes ++ [41])) := by
    cases part.autoName with
    | false => exact putAll_singleton _
    | true => rfl
  have flags : putAll (if part.maskFlags ≠ 0 then [[114, 111]] else []) =
      Writing.when (part.maskFlags ≠ 0) (put [114, 111]) := by
    rw [← putAll_when]
    simp
  have comma : putAll (if partCnt < numParts.toNat then [[44]] else []) =
      Writing.when (partCnt < numParts.toNat) (put [44]) := by
    rw [← putAll_when]
    simp
  rw [putPart, partPieces, putAll_append, putAll_append, putAll_append, putAll_append,
    putAll_singleton, putAll_when, name, flags, comma, putSize_eq, putSize_eq]
  simp only [Writing.andThen_assoc]
  rfl

theorem putParts_eq (numParts : UInt16) (prevPart : Option PartInfo) (partCnt : Nat)
    (parts : List PartInfo) :
    putParts numParts prevPart partCnt parts =
      putAll (partsPieces numParts prevPart partCnt parts) := by
  induction parts generalizing prevPart partCnt with
  | nil => rfl
  | cons part parts induction =>
    rw [putParts, partsPieces, putAll_append, putPart_eq, induction]

theorem putDevices_eq : putDevices devices = putAll (devicesPieces devices) := by
  induction devices with
  | nil => rfl
  | cons dev devices induction =>
    have separator : putAll (if devices ≠ [] then [[59]] else []) =
        Writing.when (devices ≠ []) (put [59]) := by
      rw [← putAll_when]
      simp
    rw [putDevices, devicesPieces, putAll_append, putAll_append, putAll_append,
      putAll_singleton, putParts_eq, separator, induction]
    simp only [Writing.andThen_assoc]

/-! ## The space that is used -/

def used (pieces : List (List UInt8)) (count : Nat) : Nat := (pieces.take count).flatten.length

theorem used_cons_succ : used (piece :: pieces) (count + 1) = piece.length + used pieces count := by
  rw [used, used, List.take_succ_cons, List.flatten_cons, List.length_append]

theorem used_length (pieces : List (List UInt8)) :
    used pieces pieces.length = pieces.flatten.length := by
  rw [used, List.take_length]

theorem used_le : used pieces count ≤ pieces.flatten.length := by
  induction pieces generalizing count with
  | nil => rw [used, List.take_nil]
  | cons piece pieces induction =>
    cases count with
    | zero => exact Nat.zero_le _
    | succ count =>
      simp_all [used_cons_succ, List.flatten_cons, List.length_append]

def Safe (pieces : List (List UInt8)) (maxlen space : Nat) : Prop :=
  ∀ count, used pieces count ≤ maxlen → used pieces count ≤ space

variable {pieces : List (List UInt8)}

theorem safe_cons_iff (room : piece.length ≤ maxlen) (space_le : piece.length ≤ space) :
    Safe (piece :: pieces) maxlen space ↔
      Safe pieces (maxlen - piece.length) (space - piece.length) := by
  constructor
  · intro safe count fits
    have next := safe (count + 1)
    rw [used_cons_succ] at next
    omega
  · intro safe count fits
    cases count with
    | zero => exact Nat.zero_le _
    | succ count =>
      have next := safe count
      rw [used_cons_succ] at fits ⊢
      omega

section

variable {piece written rest : List UInt8} {maxlen : UInt32}

theorem put_eq (room : piece.length ≤ maxlen.toNat) (space : piece.length ≤ rest.length) :
    put piece ⟨written ++ rest, written.length, maxlen⟩ =
      .ok (true, ⟨(written ++ piece) ++ rest.drop piece.length, (written ++ piece).length,
        maxlen - UInt32.ofNat piece.length⟩) := by
  have stored := storeAll_cut written (rest.take piece.length) (rest.drop piece.length) piece
    (List.length_take_of_le space).symm
  rw [List.take_append_drop] at stored
  rw [put, if_neg (by dsimp only; omega)]
  dsimp only
  rw [stored, Exec.ok_bind, List.length_append, List.append_assoc]
  rfl

theorem toNat_maxlen_sub (room : piece.length ≤ maxlen.toNat) :
    (maxlen - UInt32.ofNat piece.length).toNat = maxlen.toNat - piece.length := by
  have length : (UInt32.ofNat piece.length).toNat = piece.length :=
    UInt32.toNat_ofNat_of_lt' (lt_of_le_of_lt room maxlen.toNat_lt)
  rw [UInt32.toNat_sub_of_le _ _ (by rw [UInt32.le_iff_toNat_le, length]; exact room), length]

theorem putAll_of_fits {pieces : List (List UInt8)}
    (room : pieces.flatten.length ≤ maxlen.toNat) (space : pieces.flatten.length ≤ rest.length) :
    ∃ left, putAll pieces ⟨written ++ rest, written.length, maxlen⟩ =
      .ok (true, ⟨(written ++ pieces.flatten) ++ rest.drop pieces.flatten.length,
        (written ++ pieces.flatten).length, left⟩) := by
  induction pieces generalizing written rest maxlen with
  | nil => exact ⟨maxlen, by simp [putAll, Writing.done]⟩
  | cons piece pieces induction =>
    rw [List.flatten_cons, List.length_append] at room space
    obtain ⟨left, rest'⟩ := @induction (written ++ piece) (rest.drop piece.length)
      (maxlen - UInt32.ofNat piece.length) (by rw [toNat_maxlen_sub (by omega)]; omega)
      (by rw [List.length_drop]; omega)
    refine ⟨left, ?_⟩
    rw [putAll, Writing.andThen, put_eq (by omega) (by omega), Exec.ok_bind]
    dsimp only
    rw [if_pos rfl, rest', List.drop_drop, ← List.length_append, List.flatten_cons,
      List.append_assoc written]

theorem putAll_of_safe {pieces : List (List UInt8)} (safe : Safe pieces maxlen.toNat rest.length)
    (long : maxlen.toNat < pieces.flatten.length) :
    ∃ output, putAll pieces ⟨written ++ rest, written.length, maxlen⟩ = .ok (false, output) ∧
      output.buf.length = (written ++ rest).length := by
  induction pieces generalizing written rest maxlen with
  | nil => cases long
  | cons piece pieces induction =>
    by_cases room : piece.length ≤ maxlen.toNat
    · have space : piece.length ≤ rest.length := by
        have first := safe 1
        rw [used_cons_succ] at first
        exact first room
      have remaining := (safe_cons_iff room space).mp safe
      rw [← toNat_maxlen_sub room, ← List.length_drop] at remaining
      rw [List.flatten_cons, List.length_append] at long
      obtain ⟨output, rest', length⟩ := @induction (written ++ piece) (rest.drop piece.length) _
        remaining (by rw [toNat_maxlen_sub room]; omega)
      refine ⟨output, ?_, ?_⟩
      · rw [putAll, Writing.andThen, put_eq room space, Exec.ok_bind]
        exact rest'
      · rw [length, List.length_append, List.length_append, List.length_append, List.length_drop]
        omega
    · refine ⟨⟨written ++ rest, written.length, maxlen⟩, ?_, rfl⟩
      rw [putAll, Writing.andThen, put, if_pos (by dsimp only; omega)]
      rfl

theorem putAll_of_not_safe (nonempty : ∀ piece ∈ pieces, piece ≠ [])
    (notSafe : ¬ Safe pieces maxlen.toNat rest.length) :
    putAll pieces ⟨written ++ rest, written.length, maxlen⟩ = .error .outOfBounds := by
  induction pieces generalizing written rest maxlen with
  | nil =>
    refine absurd ?_ notSafe
    intro count _
    rw [used, List.take_nil]
    exact Nat.zero_le _
  | cons piece pieces induction =>
    have room : piece.length ≤ maxlen.toNat := by
      by_contra tooLong
      apply notSafe
      intro count fits
      cases count with
      | zero => exact Nat.zero_le _
      | succ count =>
        rw [used_cons_succ] at fits
        omega
    by_cases space : piece.length ≤ rest.length
    · rw [safe_cons_iff room space, ← toNat_maxlen_sub room, ← List.length_drop] at notSafe
      rw [putAll, Writing.andThen, put_eq room space]
      exact induction (fun other member => nonempty other (List.mem_cons_of_mem _ member)) notSafe
    · have fault := storeAll_outside (nonempty piece List.mem_cons_self)
        (by rw [List.length_append]; omega : (written ++ rest).length < written.length + _)
      rw [putAll, Writing.andThen, put, if_neg (by dsimp only; omega)]
      rw [fault]
      rfl

end

theorem memsizeFormat_ne_nil : memsizeFormat size ≠ [] := by
  have digits : ∀ num, Library.decimal num ≠ [] := by
    intro num
    rw [Library.decimal_eq, Library.decimalDigits]
    simp
  rw [memsizeFormat]
  split
  · simp
  split
  · simp
  split
  · simp
  · exact digits size

variable {prevPart : Option PartInfo}

theorem partPieces_ne_nil : ∀ piece ∈ partPieces numParts prevPart partCnt part, piece ≠ [] := by
  intro piece member
  simp only [partPieces, List.mem_append, List.mem_singleton] at member
  rcases member with (((size | offset) | name) | flags) | comma
  · rw [size]
    exact memsizeFormat_ne_nil
  · simp_all
  · simp_all
  · simp_all
  · simp_all

theorem partsPieces_ne_nil : ∀ piece ∈ partsPieces numParts prevPart partCnt parts, piece ≠ [] := by
  induction parts generalizing prevPart partCnt with
  | nil =>
    intro piece member
    cases member
  | cons part parts induction =>
    intro piece member
    rcases List.mem_append.mp member with first | later
    · exact partPieces_ne_nil piece first
    · exact induction piece later

theorem devicesPieces_ne_nil : ∀ piece ∈ devicesPieces devices, piece ≠ [] := by
  induction devices with
  | nil =>
    intro piece member
    cases member
  | cons dev devices induction =>
    intro piece member
    simp only [devicesPieces, List.mem_append, List.mem_singleton] at member
    rcases member with ((id | parts) | separator) | later
    · rw [id]
      simp
    · exact partsPieces_ne_nil piece parts
    · simp_all
    · exact induction piece later

/-! ## The buffer -/

/-- `generate_mtdparts` stays in its buffer, and success means that the whole text is in it. -/
def Contained (devices : List MtdDevice) (buf : List UInt8) (buflen : UInt32) : Prop :=
  ∃ ret next, generateMtdparts devices buf buflen = .ok (ret, next) ∧
    (ret = 0 → ∃ rest, next = mtdpartsText devices ++ 0 :: rest)

/-- No item ends in the last eight bytes that the code takes to be free, and the last one
leaves room for the NUL as well. -/
def Roomy (devices : List MtdDevice) (buflen : Nat) : Prop :=
  devices = [] ∨ 10 ≤ buflen ∧ (∀ count, used (devicesPieces devices) count < buflen →
      used (devicesPieces devices) count + 9 ≤ buflen) ∧
    ((devicesPieces devices).flatten.length < buflen →
      (devicesPieces devices).flatten.length + 10 ≤ buflen)

section

variable {devices : List MtdDevice} {buf : List UInt8} {buflen : UInt32}

theorem generateMtdparts_eq (some : devices ≠ []) (sized : buf.length = buflen.toNat)
    (room : 10 ≤ buflen.toNat) :
    ∃ rest, rest.length = buflen.toNat - 9 ∧ generateMtdparts devices buf buflen = (do
      let (room, output) ← putAll (devicesPieces devices)
        ⟨mtdpartsPrefix ++ rest, mtdpartsPrefix.length, buflen - 1⟩
      if room then
        let buf ← store output.buf output.p 0
        return (0, buf)
      else
        let buf ← store output.buf 0 0
        return (1, buf)) := by
  refine ⟨0 :: buf.drop 10, ?_, ?_⟩
  · grind
  · have stored := storeAll_cut [] (buf.take 10) (buf.drop 10) (mtdpartsPrefix ++ [0])
      (List.length_take_of_le (by change 10 ≤ buf.length; omega)).symm
    rw [List.take_append_drop, List.nil_append, List.nil_append, List.append_assoc] at stored
    rw [generateMtdparts, if_neg some, putDevices_eq]
    change storeAll buf 0 _ = _ at stored
    rw [stored, Exec.ok_bind]
    rfl

theorem toNat_buflen_sub_one (positive : 1 ≤ buflen.toNat) :
    (buflen - 1).toNat = buflen.toNat - 1 :=
  UInt32.toNat_sub_of_le _ _ positive

theorem generateMtdparts_of_fits (some : devices ≠ []) (sized : buf.length = buflen.toNat)
    (fits : (devicesPieces devices).flatten.length + 10 ≤ buflen.toNat) :
    ∃ rest, generateMtdparts devices buf buflen = .ok (0, mtdpartsText devices ++ 0 :: rest) := by
  obtain ⟨rest, length, equation⟩ := generateMtdparts_eq some sized (by omega)
  obtain ⟨left, written⟩ := @putAll_of_fits mtdpartsPrefix rest (buflen - 1)
    (devicesPieces devices) (by rw [toNat_buflen_sub_one (by omega)]; omega) (by omega)
  obtain ⟨last, rest', ends⟩ :
      ∃ last rest', rest.drop (devicesPieces devices).flatten.length = last :: rest' := by
    apply List.exists_cons_of_length_pos
    rw [List.length_drop]
    omega
  refine ⟨rest', ?_⟩
  rw [equation, written, Exec.ok_bind]
  dsimp only
  rw [ends, store_cut, Exec.ok_bind, mtdpartsText, if_neg some]
  rfl

/-- The table is written inside the buffer exactly if the buffer is roomy. -/
theorem generateMtdparts_contained_iff (sized : buf.length = buflen.toNat)
    (positive : 1 ≤ buflen.toNat) : Contained devices buf buflen ↔ Roomy devices buflen.toNat := by
  by_cases none : devices = []
  · refine iff_of_true ?_ (.inl none)
    obtain ⟨first, rest, equal⟩ := List.exists_cons_of_length_pos (by omega : 0 < buf.length)
    refine ⟨0, 0 :: rest, ?_, fun _ => ⟨rest, ?_⟩⟩
    · rw [generateMtdparts, if_pos none, equal]
      rfl
    · rw [mtdpartsText, if_pos none]
      rfl
  by_cases room : 10 ≤ buflen.toNat
  · obtain ⟨rest, length, equation⟩ := generateMtdparts_eq none sized room
    have maxlen := toNat_buflen_sub_one positive
    have whole := used_length (devicesPieces devices)
    have safe_iff : Safe (devicesPieces devices) (buflen - 1).toNat rest.length ↔
        ∀ count, used (devicesPieces devices) count < buflen.toNat →
          used (devicesPieces devices) count + 9 ≤ buflen.toNat := by
      constructor
      · intro safe count fits
        have next := safe count
        omega
      · intro roomy count fits
        have next := roomy count
        omega
    by_cases safe : Safe (devicesPieces devices) (buflen - 1).toNat rest.length
    · by_cases long : buflen.toNat ≤ (devicesPieces devices).flatten.length
      · -- The text does not fit, and this is noticed in time.
        obtain ⟨output, stopped, kept⟩ := @putAll_of_safe mtdpartsPrefix rest (buflen - 1)
          (devicesPieces devices) safe (by omega)
        refine iff_of_true ⟨1, output.buf.set 0 0, ?_, ?_⟩ (.inr ⟨room, safe_iff.mp safe, ?_⟩)
        · have stored : store output.buf 0 0 = .ok (output.buf.set 0 0) :=
            store_eq_ok_iff.mpr ⟨by rw [kept, List.length_append]; omega, rfl⟩
          rw [equation, stopped, Exec.ok_bind]
          dsimp only
          rw [stored]
          rfl
        · omega
        · intro short
          omega
      · by_cases fits : (devicesPieces devices).flatten.length + 10 ≤ buflen.toNat
        · obtain ⟨after, written⟩ := generateMtdparts_of_fits none sized fits
          exact iff_of_true ⟨0, _, written, fun _ => ⟨after, rfl⟩⟩
            (.inr ⟨room, safe_iff.mp safe, fun _ => fits⟩)
        · -- Everything is written but the NUL.
          have space := safe (devicesPieces devices).length (by omega)
          obtain ⟨left, written⟩ := @putAll_of_fits mtdpartsPrefix rest (buflen - 1)
            (devicesPieces devices) (by omega) (by omega)
          refine iff_of_false ?_ ?_
          · rintro ⟨ret, next, returned, _⟩
            rw [equation, written, Exec.ok_bind] at returned
            dsimp only at returned
            rw [if_pos rfl, store, if_neg] at returned
            · cases returned
            · grind
          · rintro (empty | roomy)
            · exact none empty
            · exact fits (roomy.2.2 (by omega))
    · -- An item is written behind the buffer.
      refine iff_of_false ?_ ?_
      · rintro ⟨ret, next, returned, _⟩
        rw [equation, putAll_of_not_safe devicesPieces_ne_nil safe] at returned
        cases returned
      · rintro (empty | roomy)
        · exact none empty
        · exact safe (safe_iff.mpr roomy.2.1)
  · -- The first characters are not in the buffer.
    refine iff_of_false ?_ ?_
    · rintro ⟨ret, next, returned, _⟩
      rw [generateMtdparts, if_neg none, storeAll_outside (by simp)
        (by simp [mtdpartsPrefix]; omega)] at returned
      cases returned
    · rintro (empty | roomy)
      · exact none empty
      · exact room roomy.1

end

/-- mtdparts=a:4k(b) -/
def smallTable : List MtdDevice :=
  [⟨⟨2, 0, 0x10000000, .ofBytes [97]⟩, 1, [⟨.ofBytes [98], false, 4096, 0, 0⟩]⟩]

theorem generateMtdparts_contained_iff_seventeen :
    Contained smallTable (List.replicate 17 0) 17 := by
  have length : (devicesPieces smallTable).flatten.length = 7 := by decide +kernel
  refine (generateMtdparts_contained_iff (by decide) (by decide)).mpr (.inr ⟨by decide, ?_, ?_⟩)
  · grind [used_le]
  · simp_all

theorem generateMtdparts_overruns : ¬ Contained smallTable (List.replicate 16 0) 16 := by
  rintro ⟨ret, next, returned, _⟩
  cases returned

end UBootV210.MtdParts
