import UBootV210.MtdParts.Generate
import UBootV210.MtdParts.Accepted

/-! # Reading back the partitions of a device

The offsets that `generate_mtdparts` leaves out come back; a partition that is smaller than
`MIN_PART_SIZE` is refused. -/

namespace UBootV210.MtdParts

open Library

/-! ## One partition -/

theorem mem_decimal (member : byte ∈ decimal num) : 48 ≤ byte.toNat ∧ byte.toNat ≤ 57 := by
  rw [decimal_eq] at member
  exact mem_decimalDigits member

theorem memsizeFormat_start (size : UInt64) : ∃ first rest, memsizeFormat size = first :: rest ∧
    48 ≤ first.toNat ∧ first.toNat ≤ 57 := by
  have start : ∀ num unit, ∃ first rest, decimal num ++ unit = first :: rest ∧
      48 ≤ first.toNat ∧ first.toNat ≤ 57 := by
    intro num unit
    cases digits : decimal num with
    | nil =>
      rw [decimal_eq, decimalDigits] at digits
      simp at digits
    | cons first rest =>
      grind [mem_decimal, List.mem_cons_self]
  rw [memsizeFormat]
  split
  · exact start _ _
  split
  · exact start _ _
  split
  · exact start _ _
  · have last := start size []
    rw [List.append_nil] at last
    exact last

theorem parseSize_append (ends : EndsSize rest) : parseSize (memsizeFormat size ++ rest) =
      if size < minPartSize then none else some (size, rest) := by
  obtain ⟨first, others, start, low, _⟩ := memsizeFormat_start size
  have parsed := memsizeParse_append size ends
  rw [start, List.cons_append] at parsed ⊢
  rw [parseSize]
  · rw [parsed]
  · intro p equal
    rw [(List.cons.inj equal).1] at low
    exact absurd low (by decide)

theorem endsSize_at : EndsSize (64 :: rest) := by
  intro first others start
  cases start
  decide

theorem endsSize_parenthesis : EndsSize (40 :: rest) := by
  intro first others start
  cases start
  decide

theorem parseName_append (some : name.bytes ≠ []) (plain : 41 ∉ name.bytes) :
    parseName (40 :: (name.bytes ++ 41 :: rest)) = .some (.some name, rest) := by
  have inside : ∀ byte ∈ name.bytes, decide (byte ≠ 41) = true := by
    grind
  rw [parseName, List.takeWhile_append_of_pos inside, List.dropWhile_append_of_pos inside,
    List.takeWhile_cons_of_neg (by simp), List.dropWhile_cons_of_neg (by simp), List.append_nil,
    CString.ofBytes_self]
  exact if_neg some

def endOf (prevPart : Option PartInfo) : UInt64 :=
  match prevPart with
  | none => 0
  | some prevPart => prevPart.offset + prevPart.size

variable {prevPart : Option PartInfo}

theorem gap_eq_false_iff : gap prevPart part = false ↔ part.offset = endOf prevPart := by
  cases prevPart with
  | none => simp [gap, endOf]
  | some prevPart =>
    rw [gap, decide_eq_false_iff_not, ne_eq, not_not]
    exact eq_comm

variable {after : List UInt8} {parts : List PartInfo}

section

variable {chips : Chips} {id : MtdId} {part : PartInfo}

theorem PartInfo.Parsed.again (parsed : part.Parsed chips id) :
    partValidate chips id part = some part := by
  obtain ⟨before, validated⟩ := parsed.validated
  obtain ⟨sum, _, ends⟩ := partValidate_exact validated
  refine partValidate_eq_some_iff.mpr ⟨?_, (partValidate_eq_some_iff.mp validated).2⟩
  rw [fillSize]
  split
  case isFalse => rfl
  case isTrue remaining =>
    -- Such a size is only there if the device has this size.
    have size : part.size.toNat = 2 ^ 64 - 1 := by
      rw [remaining]
      rfl
    have bound : id.size.toNat < 2 ^ 64 := id.size.toNat_lt
    have whole : id.size = part.size := UInt64.toNat_inj.mp (by omega)
    have start : part.offset = 0 := by
      grind [UInt64.toNat_inj]
    rw [whole, start, UInt64.sub_zero, ← start]

theorem PartInfo.Parsed.offset_ne (parsed : part.Parsed chips id) :
    part.offset ≠ offsetNotSpecified := by
  obtain ⟨before, validated⟩ := parsed.validated
  obtain ⟨_, nonempty, ends⟩ := partValidate_exact validated
  have bound : id.size.toNat < 2 ^ 64 := id.size.toNat_lt
  intro equal
  have large : part.offset.toNat = 2 ^ 64 - 1 := by
    rw [equal]
    rfl
  omega

def partBody (prevPart : Option PartInfo) (part : PartInfo) : List UInt8 :=
  memsizeFormat part.size ++ ((if gap prevPart part then 64 :: memsizeFormat part.offset else []) ++
    (40 :: (part.name.bytes ++ (41 :: if part.maskFlags ≠ 0 then [114, 111] else []))))

theorem partDef_body (parsed : part.Parsed chips id) (named : part.autoName = false)
    (noFlags : after.head? ≠ some 114) :
    partDef (partBody prevPart part ++ after) =
      if part.size < minPartSize then none
      else (parseEnd part.size after).map fun ret =>
        (⟨part.size, if gap prevPart part then part.offset else offsetNotSpecified,
          some part.name, part.maskFlags⟩, ret) := by
  obtain ⟨nonempty, plain⟩ := parsed.named named
  obtain ⟨flags, flagged⟩ : ∃ flags : List UInt8,
      flags = if part.maskFlags ≠ 0 then [114, 111] else [] := ⟨_, rfl⟩
  have readFlags : parseFlags (flags ++ after) = (part.maskFlags, after) := by
    rw [flagged]
    rcases parsed.flags with none | some
    · rw [none, if_neg (by simp), List.nil_append, parseFlags.eq_def]
      split
      · exact absurd rfl noFlags
      · rfl
    · rw [some, if_pos (by decide)]
      rfl
  obtain ⟨rest, last⟩ : ∃ rest, rest = 40 :: (part.name.bytes ++ 41 :: (flags ++ after)) := ⟨_, rfl⟩
  have readName : parseName rest = some (some part.name, flags ++ after) := by
    simp_all [parseName_append]
  obtain ⟨offset, middle⟩ : ∃ offset, offset =
      (if gap prevPart part then 64 :: memsizeFormat part.offset else []) ++ rest := ⟨_, rfl⟩
  have readOffset : parseOffset offset =
      (if gap prevPart part then part.offset else offsetNotSpecified, rest) := by
    rw [middle]
    split
    · rw [List.cons_append]
      change memsizeParse _ = _
      rw [last]
      exact memsizeParse_append part.offset endsSize_parenthesis
    · rw [last]
      rfl
  have endsSize : EndsSize offset := by
    grind [endsSize_parenthesis, endsSize_at]
  have text : partBody prevPart part ++ after = memsizeFormat part.size ++ offset := by
    rw [middle, last, flagged, partBody]
    simp only [List.append_assoc, List.cons_append]
  rw [text, partDef, parseSize_append endsSize]
  by_cases small : part.size < minPartSize
  · simp_all
  · rw [if_neg small, if_neg small]
    simp only [Option.bind_eq_bind, Option.bind_some, readOffset, readName, readFlags]
    cases parseEnd part.size after with
    | none => rfl
    | some ret => rfl

theorem nextPart_body (parsed : part.Parsed chips id) (named : part.autoName = false)
    (noFlags : after.head? ≠ some 114) :
    nextPart chips id (endOf prevPart) (partBody prevPart part ++ after) =
      .ok (if part.size < minPartSize then none
        else (parseEnd part.size after).map fun ret => (part, ret)) := by
  have filled : fillOffset (endOf prevPart) ⟨part.name, false, part.size,
      if gap prevPart part then part.offset else offsetNotSpecified, part.maskFlags⟩ = part := by
    rw [← named]
    cases start : gap prevPart part with
    | false =>
      rw [← gap_eq_false_iff.mp start]
      exact if_pos rfl
    | true => exact if_neg parsed.offset_ne
  rw [nextPart, partParse, partDef_body parsed named noFlags]
  by_cases small : part.size < minPartSize
  · rw [if_pos small, if_pos small]
    rfl
  · rw [if_neg small, if_neg small]
    cases parseEnd part.size after with
    | none => rfl
    | some ret =>
      simp only [Option.map_some, Exec.ok_bind]
      rw [filled, parsed.again]
      rfl

/-! ## The partitions of a device -/

def partsText (numParts : UInt16) (prevPart : Option PartInfo) (partCnt : Nat)
    (parts : List PartInfo) : List UInt8 :=
  (partsPieces numParts prevPart partCnt parts).flatten

theorem partsText_cons (named : part.autoName = false) :
    partsText numParts prevPart partCnt (part :: parts) =
      partBody prevPart part ++ ((if partCnt + 1 < numParts.toNat then [44] else []) ++
        partsText numParts (some part) (partCnt + 1) parts) := by
  have flatten : ∀ (condition : Prop) [Decidable condition] (piece : List UInt8),
      (if condition then [piece] else []).flatten = if condition then piece else [] := by
    grind
  rw [partsText, partsText, partsPieces, partPieces, partBody, named]
  simp only [List.flatten_append, flatten, List.flatten_cons, List.append_assoc, List.cons_append,
    List.nil_append, Bool.false_eq_true, if_false]

theorem partBody_start (prevPart : Option PartInfo) (part : PartInfo) :
    ∃ first rest, partBody prevPart part = first :: rest ∧ 48 ≤ first.toNat ∧ first.toNat ≤ 57 := by
  obtain ⟨first, rest, start, digit⟩ := memsizeFormat_start part.size
  rw [partBody, start]
  exact ⟨first, _, rfl, digit⟩

/-- The partitions can be read again: they are not too small, and a comma that is accepted is
behind each but the last. -/
def Readable (numParts : UInt16) : Nat → List PartInfo → Prop
  | _, [] => True
  | partCnt, part :: parts =>
      ¬ part.size < minPartSize ∧
      (parts ≠ [] → partCnt + 1 < numParts.toNat ∧ part.size ≠ sizeRemaining) ∧
      Readable numParts (partCnt + 1) parts

def EndsDevice (tail : List UInt8) : Prop := tail = [] ∨ ∃ rest, tail = 59 :: rest

theorem partsText_start (named : ∀ part ∈ parts, part.autoName = false) (ends : EndsDevice tail)
    (start : (partsText numParts prevPart partCnt parts ++ tail).head? = some first) :
    48 ≤ first.toNat ∧ first.toNat ≤ 59 := by
  cases parts with
  | nil =>
    change tail.head? = some first at start
    rcases ends with none | ⟨rest, semicolon⟩
    · simp_all
    · rw [semicolon] at start
      cases start
      decide
  | cons part parts =>
    obtain ⟨digit, rest, equal, low, high⟩ := partBody_start prevPart part
    rw [partsText_cons (named part List.mem_cons_self), equal] at start
    cases start
    omega

section

variable {numParts : UInt16} {tail : List UInt8} {prevPart : Option PartInfo} {partCnt fuel : Nat}
  {parts : List PartInfo}

theorem parseParts_cons (parsed : part.Parsed chips id)
    (named : ∀ other ∈ part :: parts, other.autoName = false) (ends : EndsDevice tail)
    (behind : after = (if partCnt + 1 < numParts.toNat then [44] else []) ++
      (partsText numParts (some part) (partCnt + 1) parts ++ tail)) :
    parseParts chips id (fuel + 1) (endOf prevPart)
        (partsText numParts prevPart partCnt (part :: parts) ++ tail) =
      if part.size < minPartSize then .ok none
      else
        (parseEnd part.size after).elim (.ok none) fun p =>
          (parseParts chips id fuel (endOf (some part)) p).map
            (Option.map fun rest => (part :: rest.1, rest.2)) := by
  have partNamed := named part List.mem_cons_self
  have noFlags : after.head? ≠ some 114 := by
    intro flags
    rw [behind] at flags
    split at flags
    · cases flags
    · have digit :=
        partsText_start (fun other member => named other (List.mem_cons_of_mem _ member))
        ends flags
      exact absurd digit.2 (by decide)
  obtain ⟨first, rest, start, low, high⟩ := partBody_start prevPart part
  have text : partsText numParts prevPart partCnt (part :: parts) ++ tail =
      partBody prevPart part ++ after := by
    rw [partsText_cons partNamed, behind]
    simp only [List.append_assoc]
  have begins : ¬ ((partBody prevPart part ++ after).head? = none ∨
      (partBody prevPart part ++ after).head? = some 59) := by
    rw [start]
    rintro (none | semicolon)
    · cases none
    · cases semicolon
      exact absurd high (by decide)
  rw [text, parseParts, if_neg begins, nextPart_body parsed partNamed noFlags]
  split
  · rfl
  · cases parseEnd part.size after with
    | none => rfl
    | some p =>
      change (parseParts chips id fuel (endOf (some part)) p >>= _) = Except.map _ _
      cases parseParts chips id fuel (endOf (some part)) p with
      | error fault => rfl
      | ok result =>
        cases result with
        | none => rfl
        | some rest => rfl

theorem parseParts_text (accepted : ∀ part ∈ parts, part.Parsed chips id)
    (named : ∀ part ∈ parts, part.autoName = false) (ends : EndsDevice tail)
    (counted : numParts.toNat ≤ partCnt + parts.length) (enough : parts.length < fuel) :
    (Readable numParts partCnt parts → parseParts chips id fuel (endOf prevPart)
      (partsText numParts prevPart partCnt parts ++ tail) = .ok (some (parts, tail))) ∧
    (¬ Readable numParts partCnt parts → parseParts chips id fuel (endOf prevPart)
      (partsText numParts prevPart partCnt parts ++ tail) = .ok none) := by
  obtain ⟨fuel, rfl⟩ : ∃ more, fuel = more + 1 := ⟨fuel - 1, by omega⟩
  induction parts generalizing prevPart partCnt fuel with
  | nil =>
    refine ⟨fun _ => ?_, absurd trivial⟩
    change parseParts chips id (fuel + 1) _ tail = _
    rw [parseParts, if_pos]
    rcases ends with none | ⟨rest, semicolon⟩
    · exact .inl (by rw [none]; rfl)
    · exact .inr (by rw [semicolon]; rfl)
  | cons part parts induction =>
    rw [List.length_cons] at counted enough
    obtain ⟨fuel, rfl⟩ : ∃ more, fuel = more + 1 := ⟨fuel - 1, by omega⟩
    obtain ⟨reads, refuses⟩ := @induction (some part) (partCnt + 1)
      (fun other member => accepted other (List.mem_cons_of_mem _ member))
      (fun other member => named other (List.mem_cons_of_mem _ member)) (by omega) fuel (by omega)
    rw [parseParts_cons (accepted part List.mem_cons_self) named ends rfl]
    by_cases small : part.size < minPartSize
    · rw [if_pos small]
      exact ⟨fun readable => absurd small readable.1, fun _ => rfl⟩
    rw [if_neg small]
    cases parts with
    | nil =>
      rw [List.length_nil] at counted
      have next : parseEnd part.size (partsText numParts (some part) (partCnt + 1) [] ++ tail) =
          some (partsText numParts (some part) (partCnt + 1) [] ++ tail) := by
        change parseEnd part.size tail = some tail
        rcases ends with none | ⟨rest, semicolon⟩
        · rw [none]
          rfl
        · rw [semicolon]
          rfl
      rw [if_neg (by omega), List.nil_append, next, Option.elim_some, reads trivial]
      exact ⟨fun _ => rfl, absurd ⟨small, absurd rfl, trivial⟩⟩
    | cons other parts =>
      by_cases written : partCnt + 1 < numParts.toNat
      · rw [if_pos written]
        by_cases rest : part.size = sizeRemaining
        · have refused : parseEnd part.size ([44] ++ (partsText numParts (some part) (partCnt + 1)
              (other :: parts) ++ tail)) = none := if_pos rest
          rw [refused]
          exact ⟨fun readable => absurd rest (readable.2.1 (List.cons_ne_nil _ _)).2, fun _ => rfl⟩
        · have next : parseEnd part.size ([44] ++
              (partsText numParts (some part) (partCnt + 1) (other :: parts) ++ tail)) =
              some (partsText numParts (some part) (partCnt + 1) (other :: parts) ++ tail) :=
            if_neg rest
          rw [next, Option.elim_some]
          constructor
          · intro readable
            rw [reads readable.2.2]
            rfl
          · intro unreadable
            rw [refuses fun others => unreadable ⟨small, fun _ => ⟨written, rest⟩, others⟩]
            rfl
      · -- The next partition follows without a comma.
        obtain ⟨first, behind, start, low, high⟩ := partBody_start (some part) other
        have refused : parseEnd part.size ([] ++
            (partsText numParts (some part) (partCnt + 1) (other :: parts) ++ tail)) = none := by
          rw [partsText_cons (named other (List.mem_cons_of_mem _ List.mem_cons_self)), start,
            parseEnd.eq_def]
          split
          case h_1 empty => cases empty
          case h_2 comma =>
            cases comma
            exact absurd low (by decide)
          case h_3 semicolon =>
            cases semicolon
            exact absurd high (by decide)
          case h_4 => rfl
        rw [if_neg written, refused]
        exact ⟨fun readable => absurd (readable.2.1 (List.cons_ne_nil _ _)).1 written, fun _ => rfl⟩

theorem readable_iff : Readable numParts partCnt parts ↔
    (parts.length ≤ 1 ∨ partCnt + parts.length ≤ numParts.toNat) ∧
      (∀ part ∈ parts, ¬ part.size < minPartSize) ∧
      ∀ part ∈ parts.dropLast, part.size ≠ sizeRemaining := by
  induction parts generalizing partCnt with
  | nil => simp [Readable]
  | cons part parts induction =>
    rw [Readable, induction]
    cases parts with
    | nil => simp
    | cons other parts =>
      grind

theorem length_parts_le : parts.length ≤ (partsText numParts prevPart partCnt parts).length := by
  induction parts generalizing prevPart partCnt with
  | nil => exact Nat.zero_le _
  | cons part parts induction =>
    have later := @induction (some part) (partCnt + 1)
    have first : 0 < (memsizeFormat part.size).length :=
      List.length_pos_iff.mpr memsizeFormat_ne_nil
    rw [partsText] at later ⊢
    rw [partsPieces, partPieces, List.length_cons]
    simp only [List.flatten_append, List.length_append, List.flatten_cons]
    omega

end

end

end UBootV210.MtdParts
