import UBootV210.MtdParts.Parse

/-! # What the partition parser accepts

The partitions of a device that `device_parse` accepts lie inside the device and on the
borders of its blocks. -/

namespace UBootV210.MtdParts

open Library

/-! ## Generated names -/

theorem length_putMasked_le_iff (positive : 0 < count) (enough : count < fuel) :
    (putMasked 4 locase fuel num).length ≤ count ↔ num < 16 ^ count := by
  induction fuel generalizing count num with
  | zero => omega
  | succ fuel induction =>
    obtain ⟨more, rfl⟩ : ∃ more, count = more + 1 := ⟨count - 1, by omega⟩
    have shifted : num >>> 4 = num / 16 := Nat.shiftRight_eq_div_pow num 4
    rw [putMasked, List.length_cons, shifted]
    split
    case isTrue higher =>
      cases more with
      | zero =>
        have last : 0 < (putMasked 4 locase fuel (num / 16)).length := by
          cases fuel with
          | zero => omega
          | succ fuel =>
            exact Nat.succ_pos _
        omega
      | succ more =>
        rw [Nat.add_le_add_iff_right, induction (Nat.succ_pos more) (by omega),
          Nat.div_lt_iff_lt_mul (by omega), ← Nat.pow_succ]
    case isFalse single =>
      have power : 16 ≤ 16 ^ (more + 1) := Nat.le_self_pow (by omega) 16
      simp only [List.length_nil]
      omega

theorem length_hexadecimal8 (num : UInt64) : 8 ≤ (hexadecimal8 num).length ∧
    ((hexadecimal8 num).length ≤ 8 ↔ num.toNat < 2 ^ 32) := by
  obtain ⟨tmp, digits⟩ : ∃ tmp, tmp = if num = 0 then [48] else putMasked 4 0x20 64 num.toNat :=
    ⟨_, rfl⟩
  have length : (hexadecimal8 num).length = 8 - tmp.length + tmp.length := by
    rw [digits]
    simp [hexadecimal8, number]
  have short : tmp.length ≤ 8 ↔ num.toNat < 2 ^ 32 := by
    rw [digits]
    split
    case isTrue zero =>
      rw [zero]
      decide
    case isFalse => exact length_putMasked_le_iff (by omega) (by omega)
  omega

/-- A partition without a name gets one, in the space that there is for it, if its size
and its offset are given and have 32 bits. -/
theorem partParse_unnamed_iff {p ret : List UInt8} {definition : PartDef}
    (accepted : partDef p = some (definition, ret)) (unnamed : definition.name = none) :
    (∃ part, partParse p = .ok (some (part, ret))) ↔
      definition.size.toNat < 2 ^ 32 ∧ definition.offset.toNat < 2 ^ 32 := by
  obtain ⟨size, offset, name, maskFlags⟩ := definition
  cases unnamed
  have sizeLength := length_hexadecimal8 size
  have offsetLength := length_hexadecimal8 offset
  have length : (autoName size offset).length =
      5 + (hexadecimal8 size).length + (hexadecimal8 offset).length := by
    simp only [autoName, List.length_append, List.length_cons, List.length_nil]
    omega
  rw [partParse, accepted]
  dsimp only
  split
  case isTrue fits =>
    refine iff_of_true ⟨_, rfl⟩ ?_
    omega
  case isFalse tooLong =>
    refine iff_of_false ?_ ?_
    · rintro ⟨part, returned⟩
      cases returned
    · omega

-- 64k@1m
theorem partParse_unnamed_iff_small :
    ∃ part, partParse [54, 52, 107, 64, 49, 109] = .ok (some (part, [])) := by
  have accepted : partDef [54, 52, 107, 64, 49, 109] =
      some (⟨0x10000, 0x100000, none, 0⟩, []) := by decide +kernel
  exact (partParse_unnamed_iff accepted rfl).mpr (by decide)

-- 64k
theorem partParse_unnamed_overflows :
    partDef [54, 52, 107] = some (⟨0x10000, offsetNotSpecified, none, 0⟩, []) ∧
      partParse [54, 52, 107] = .error .outOfBounds := by
  decide +kernel

/-- The partition is not empty, ends inside the device and consists of whole blocks. -/
structure PartInfo.Inside (part : PartInfo) (id : MtdId) (erasesize : UInt32) : Prop where
  nonempty : 0 < part.size.toNat
  ends : part.offset.toNat + part.size.toNat ≤ id.size.toNat
  start : erasesize.toNat ∣ part.offset.toNat
  whole : erasesize.toNat ∣ part.size.toNat

theorem dvd_of_mod_eq_zero {value : UInt64} {erasesize : UInt32}
    (aligned : value % erasesize.toUInt64 = 0) : erasesize.toNat ∣ value.toNat := by
  apply Nat.dvd_of_mod_eq_zero
  have remainder := congrArg UInt64.toNat aligned
  exact remainder

variable {part valid : PartInfo} {p rest ret : List UInt8} {parts : List PartInfo} {dev : MtdDevice}
  {devices : List MtdDevice}

section

variable {chips : Chips} {id : MtdId} {mtd : MtdInfo}

theorem partValidate_eq_some_iff :
    partValidate chips id part = some valid ↔ valid = fillSize id part ∧ valid.offset ≤ id.size ∧
      valid.offset < valid.offset + valid.size ∧ valid.offset + valid.size ≤ id.size ∧
      partValidateEraseblock chips id valid = true := by
  rw [partValidate]
  generalize fillSize id part = filled
  constructor
  · intro validated
    split at validated
    · cases validated
    split at validated
    · cases validated
    split at validated
    · cases validated
    split at validated
    · cases validated
      exact ⟨rfl, UInt64.not_lt.mp ‹_›, UInt64.not_le.mp ‹_›, UInt64.not_lt.mp ‹_›, ‹_›⟩
    · cases validated
  · rintro ⟨rfl, start, nonempty, ends, blocks⟩
    rw [if_neg (UInt64.not_lt.mpr start), if_neg (UInt64.not_le.mpr nonempty),
      if_neg (UInt64.not_lt.mpr ends), if_pos blocks]

theorem partValidate_exact (validated : partValidate chips id part = some valid) :
    (valid.offset + valid.size).toNat = valid.offset.toNat + valid.size.toNat ∧
      0 < valid.size.toNat ∧ valid.offset.toNat + valid.size.toNat ≤ id.size.toNat := by
  obtain ⟨_, _, nonempty, ends, _⟩ := partValidate_eq_some_iff.mp validated
  have offsetBound : valid.offset.toNat < 2 ^ 64 := valid.offset.toNat_lt
  have sizeBound : valid.size.toNat < 2 ^ 64 := valid.size.toNat_lt
  rw [UInt64.lt_iff_toNat_lt, UInt64.toNat_add] at nonempty
  rw [UInt64.le_iff_toNat_le, UInt64.toNat_add] at ends
  rw [UInt64.toNat_add]
  omega

theorem partValidate_inside (chip : chips id.type id.num = some mtd)
    (uniform : mtd.eraseregions = []) (validated : partValidate chips id part = some valid) :
    valid.Inside id mtd.erasesize := by
  obtain ⟨_, nonempty, ends⟩ := partValidate_exact validated
  have blocks := (partValidate_eq_some_iff.mp validated).2.2.2.2
  rw [partValidateEraseblock, chip] at blocks
  dsimp only at blocks
  rw [if_pos uniform, decide_eq_true_eq] at blocks
  exact ⟨nonempty, ends, dvd_of_mod_eq_zero blocks.1, dvd_of_mod_eq_zero blocks.2⟩

/-! ## The parts that are parsed -/

structure PartInfo.Parsed (chips : Chips) (id : MtdId) (part : PartInfo) : Prop where
  validated : ∃ before, partValidate chips id before = some part
  named : part.autoName = false → part.name.bytes ≠ [] ∧ 41 ∉ part.name.bytes
  flags : part.maskFlags = 0 ∨ part.maskFlags = mtdWriteableCmd

theorem parseName_eq_some (parsed : parseName p = some (some name, rest)) :
    name.bytes ≠ [] ∧ 41 ∉ name.bytes := by
  rw [parseName.eq_def] at parsed
  split at parsed
  case h_1 p =>
    dsimp only at parsed
    split at parsed
    · cases parsed
    split at parsed
    · cases parsed
    case isFalse nonempty =>
      cases parsed
      refine ⟨nonempty, ?_⟩
      intro member
      have early := List.takeWhile_subset _ member
      exact absurd (List.mem_takeWhile_imp early) (by decide)
  case h_2 => cases parsed

theorem parseFlags_or : (parseFlags p).1 = 0 ∨ (parseFlags p).1 = mtdWriteableCmd := by
  rw [parseFlags.eq_def]
  split
  · exact .inr rfl
  · exact .inl rfl

theorem partDef_eq_some (accepted : partDef p = some (definition, ret)) :
    (∀ name, definition.name = some name → name.bytes ≠ [] ∧ 41 ∉ name.bytes) ∧
      (definition.maskFlags = 0 ∨ definition.maskFlags = mtdWriteableCmd) := by
  rw [partDef] at accepted
  simp only [Option.bind_eq_bind, Option.bind_eq_some_iff, Option.pure_def] at accepted
  obtain ⟨⟨size, p1⟩, _, ⟨name, p3⟩, named, ret', _, equal⟩ := accepted
  cases equal
  refine ⟨?_, parseFlags_or⟩
  intro found same
  dsimp only at same
  rw [same] at named
  exact parseName_eq_some named

theorem partParse_eq_some (parsed : partParse p = .ok (some (part, ret))) :
    (part.autoName = false → part.name.bytes ≠ [] ∧ 41 ∉ part.name.bytes) ∧
      (part.maskFlags = 0 ∨ part.maskFlags = mtdWriteableCmd) := by
  rw [partParse] at parsed
  split at parsed
  case h_1 => cases parsed
  case h_2 size offset name maskFlags ret' accepted =>
    cases parsed
    obtain ⟨named, flags⟩ := partDef_eq_some accepted
    exact ⟨fun _ => named name rfl, flags⟩
  case h_3 size offset maskFlags ret' accepted =>
    split at parsed
    · cases parsed
      refine ⟨?_, (partDef_eq_some accepted).2⟩
      intro auto
      cases auto
    · cases parsed

theorem fillSize_fields (id : MtdId) (part : PartInfo) :
    (fillSize id part).name = part.name ∧ (fillSize id part).autoName = part.autoName ∧
      (fillSize id part).maskFlags = part.maskFlags := by
  rw [fillSize]
  split
  · exact ⟨rfl, rfl, rfl⟩
  · exact ⟨rfl, rfl, rfl⟩

theorem fillOffset_fields (offset : UInt64) (part : PartInfo) :
    (fillOffset offset part).name = part.name ∧ (fillOffset offset part).autoName = part.autoName ∧
      (fillOffset offset part).maskFlags = part.maskFlags := by
  rw [fillOffset]
  split
  · exact ⟨rfl, rfl, rfl⟩
  · exact ⟨rfl, rfl, rfl⟩

theorem nextPart_eq_some
    (parsed : nextPart chips id offset p = .ok (some (part, ret))) : part.Parsed chips id := by
  rw [nextPart, Exec.bind_eq_ok_iff] at parsed
  obtain ⟨found, read, rest⟩ := parsed
  cases found with
  | none => cases rest
  | some found =>
    obtain ⟨before, p'⟩ := found
    dsimp only at rest
    split at rest
    case h_1 => cases rest
    case h_2 valid validated =>
      cases rest
      obtain ⟨named, flags⟩ := partParse_eq_some read
      have filled := (partValidate_eq_some_iff.mp validated).1
      obtain ⟨sizeName, sizeAuto, sizeFlags⟩ := fillSize_fields id (fillOffset offset before)
      obtain ⟨offsetName, offsetAuto, offsetFlags⟩ := fillOffset_fields offset before
      refine ⟨⟨_, validated⟩, ?_, ?_⟩
      · rw [filled, sizeName, sizeAuto, offsetName, offsetAuto]
        exact named
      · rw [filled, sizeFlags, offsetFlags]
        exact flags

theorem parseParts_parsed (parsed : parseParts chips id fuel offset p = .ok (some (parts, rest))) :
    ∀ part ∈ parts, part.Parsed chips id := by
  induction fuel generalizing offset p parts with
  | zero => cases parsed
  | succ fuel induction =>
    rw [parseParts] at parsed
    split at parsed
    · cases parsed
      intro part member
      cases member
    rw [Exec.bind_eq_ok_iff] at parsed
    obtain ⟨found, read, others⟩ := parsed
    cases found with
    | none => cases others
    | some found =>
      rw [Exec.bind_eq_ok_iff] at others
      obtain ⟨later, recursion, rest⟩ := others
      cases later with
      | none => cases rest
      | some later =>
        cases rest
        intro other member
        rcases List.mem_cons.mp member with first | later
        · rw [first]
          exact nextPart_eq_some read
        · exact induction recursion other later

theorem sortAdd_perm (added : sortAdd new parts = some sorted) : sorted.Perm (new :: parts) := by
  induction parts generalizing sorted with
  | nil =>
    cases added
    exact .refl _
  | cons pi parts induction =>
    rw [sortAdd] at added
    split at added
    · cases added
    split at added
    · cases added
      exact .refl _
    · obtain ⟨rest, found, equal⟩ := Option.map_eq_some_iff.mp added
      rw [← equal]
      exact ((induction found).cons pi).trans (.swap new pi parts)

theorem addParts_perm (done : addParts dev parts = some added) :
    added.id = dev.id ∧ added.parts.Perm (dev.parts ++ parts) := by
  induction parts generalizing dev with
  | nil =>
    cases done
    exact ⟨rfl, by rw [List.append_nil]⟩
  | cons part parts induction =>
    rw [addParts, Option.bind_eq_bind, Option.bind_eq_some_iff] at done
    obtain ⟨next, first, rest⟩ := done
    obtain ⟨sorted, inserted, rfl⟩ := Option.map_eq_some_iff.mp first
    obtain ⟨sameId, perm⟩ := induction rest
    refine ⟨sameId, perm.trans ?_⟩
    have moved := (sortAdd_perm inserted).append_right parts
    exact moved.trans List.perm_middle.symm

theorem deviceParse_eq_some
    (accepted : deviceParse chips mtdids devices mtdDev = .ok (some (dev, rest))) :
    ∃ id offset parts p behind, idFindByMtdId mtdids (mtdDev.takeWhile (· ≠ 58)) = some id ∧
      mtdDev.dropWhile (· ≠ 58) = 58 :: p ∧
      parseParts chips id (p.length + 1) offset p = .ok (some (parts, behind)) ∧
      parts.length % 65536 ≠ 0 ∧ addParts ⟨id, 0, []⟩ parts = some dev := by
  rw [deviceParse] at accepted
  split at accepted
  · cases accepted
  case h_2 colon p start =>
    split at accepted
    · cases accepted
    case h_2 id found =>
      rw [Exec.bind_eq_ok_iff] at accepted
      obtain ⟨offset, first, accepted⟩ := accepted
      rw [Exec.bind_eq_ok_iff] at accepted
      obtain ⟨result, read, accepted⟩ := accepted
      cases result with
      | none => cases accepted
      | some result =>
        obtain ⟨parts, behind⟩ := result
        dsimp only at accepted
        split at accepted
        · cases accepted
        case isFalse counted =>
          split at accepted
          · cases accepted
          case h_2 added done =>
            cases accepted
            have stop : colon = 58 := by
              have stops := List.head?_dropWhile_not (fun byte => decide (byte ≠ 58)) mtdDev
              rw [start] at stops
              simpa using stops
            rw [stop] at start
            exact ⟨id, offset, parts, p, behind, found, start, read, counted, done⟩

theorem deviceParse_parsed
    (accepted : deviceParse chips mtdids devices mtdDev = .ok (some (dev, rest))) :
    ∀ part ∈ dev.parts, part.Parsed chips dev.id := by
  obtain ⟨id, offset, parts, p, behind, _, _, read, _, done⟩ := deviceParse_eq_some accepted
  obtain ⟨sameId, perm⟩ := addParts_perm done
  intro part member
  rw [sameId]
  exact parseParts_parsed read part (perm.mem_iff.mp member)

/-- Every partition of a device that is accepted lies inside the device. -/
theorem deviceParse_inside {mtdids : List MtdId} {devices : List MtdDevice}
    {mtdDev rest : List UInt8} {dev : MtdDevice} {part : PartInfo}
    (chip : chips dev.id.type dev.id.num = some mtd) (uniform : mtd.eraseregions = [])
    (parsed : deviceParse chips mtdids devices mtdDev = .ok (some (dev, rest)))
    (member : part ∈ dev.parts) : part.Inside dev.id mtd.erasesize := by
  obtain ⟨before, validated⟩ := (deviceParse_parsed parsed part member).validated
  exact partValidate_inside chip uniform validated

end

def exampleChips : Chips := fun _ _ => some ⟨0x20000, []⟩

def exampleId : MtdId := ⟨2, 0, 0x10000000, .ofBytes [110]⟩

-- n:1m(a),-(b)
theorem deviceParse_inside_rest :
    (⟨.ofBytes [98], false, 0xff00000, 0x100000, 0⟩ : PartInfo).Inside exampleId 0x20000 := by
  have chip : exampleChips exampleId.type exampleId.num = some ⟨0x20000, []⟩ := rfl
  have parsed : deviceParse exampleChips [exampleId] []
      [110, 58, 49, 109, 40, 97, 41, 44, 45, 40, 98, 41] =
        .ok (some (⟨exampleId, 2, [⟨.ofBytes [97], false, 0x100000, 0, 0⟩,
          ⟨.ofBytes [98], false, 0xff00000, 0x100000, 0⟩]⟩, [])) := by decide +kernel
  exact deviceParse_inside chip rfl parsed (List.mem_cons_of_mem _ List.mem_cons_self)

end UBootV210.MtdParts
