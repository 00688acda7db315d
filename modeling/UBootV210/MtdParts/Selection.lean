import UBootV210.Foundation.KeyOrder
import UBootV210.MtdParts.Accepted

/-! # The selected partition

An embedding of what `part_add` and `part_del` do to `current_mtd_partnum`, the number of
the selected partition, when they change the device that it is on. -/

namespace UBootV210.MtdParts

open KeyOrder

/-! ## `part_add` and `part_del` on the current device -/

def mtdPartInfo (dev : MtdDevice) (partNum : Nat) : Option PartInfo :=
  if dev.numParts.toNat ≤ partNum then none else dev.parts[partNum]?

/-- `index_partitions`, which reads the name of the selected partition. -/
def indexPartitions (dev : MtdDevice) (partnum : UInt8) : Exec Unit :=
  match mtdPartInfo dev partnum.toNat with
  | none => .error .nullPointer
  | some _ => .ok ()

/-- The loop of `part_sort_add` counts up if the entry before which it puts the new partition
is not behind the selected one. -/
def countsUp (currPi : Option PartInfo) (new : PartInfo) : List PartInfo → Bool
  | [] => false
  | pi :: parts =>
      if new.offset ≤ pi.offset then currPi.any fun currPi => pi.offset ≤ currPi.offset
      else countsUp currPi new parts

def partSortAddCurrent (dev : MtdDevice) (partnum : UInt8) (part : PartInfo) :
    Exec (Option (MtdDevice × UInt8)) :=
  match partSortAdd dev part with
  | none => .ok none
  | some added => do
      let currPi := mtdPartInfo dev partnum.toNat
      let partnum := if countsUp currPi part dev.parts then partnum + 1 else partnum
      indexPartitions added partnum
      return some (added, partnum)

def partAddCurrent (chips : Chips) (dev : MtdDevice) (partnum : UInt8) (part : PartInfo) :
    Exec (Option (MtdDevice × UInt8)) :=
  match partValidate chips dev.id part with
  | none => .ok none
  | some part => partSortAddCurrent dev partnum part

/-- `part_del` of the partition at a place, with `none` for a device that is deleted. -/
def partDelCurrent (dev : MtdDevice) (partnum : UInt8) (place : Nat) :
    Exec (Option (MtdDevice × UInt8)) := do
  if dev.numParts = 1 then
    return none
  let some part := dev.parts[place]? | .error .outOfBounds
  let partnum :=
    match mtdPartInfo dev partnum.toNat with
    | none => partnum
    | some currPi =>
        if partnum.toNat = place then 0
        else if part.offset ≤ currPi.offset then partnum - 1
        else partnum
  let dev := { dev with parts := dev.parts.eraseIdx place, numParts := dev.numParts - 1 }
  indexPartitions dev partnum
  return some (dev, partnum)

/-! ## The order of the partitions -/

def partKey (part : PartInfo) : Nat := part.offset.toNat

structure MtdDevice.Wellformed (dev : MtdDevice) : Prop where
  ordered : Ordered partKey dev.parts
  counted : dev.numParts.toNat = dev.parts.length

variable {sorted : List PartInfo}

theorem sortAdd_eq_some
    (added : sortAdd new parts = some sorted) : sorted = insertBefore partKey new parts := by
  induction parts generalizing sorted with
  | nil =>
    cases added
    rfl
  | cons pi parts induction =>
    rw [sortAdd] at added
    split at added
    · cases added
    split at added
    case isTrue first =>
      have stays : ¬ partKey pi < partKey new := by
        exact Nat.not_lt.mpr first
      cases added
      rw [insertBefore, smaller, others, List.takeWhile_cons_of_neg (by simpa using stays),
        List.dropWhile_cons_of_neg (by simpa using stays)]
      rfl
    case isFalse later =>
      have passes : partKey pi < partKey new := by
        rw [UInt64.not_le] at later
        exact later
      obtain ⟨rest, found, equal⟩ := Option.map_eq_some_iff.mp added
      rw [← equal, induction found, insertBefore, insertBefore, smaller, smaller, others, others,
        List.takeWhile_cons_of_pos (by simpa using passes),
        List.dropWhile_cons_of_pos (by simpa using passes)]
      rfl

theorem countsUp_eq : countsUp currPi new parts =
      (others partKey new parts).head?.any fun pi => currPi.any (partKey pi ≤ partKey ·) := by
  induction parts with
  | nil => rfl
  | cons pi parts induction =>
    rw [countsUp]
    split
    case isTrue first =>
      have stays : ¬ partKey pi < partKey new := by
        rw [UInt64.le_iff_toNat_le] at first
        exact Nat.not_lt.mpr first
      rw [others, List.dropWhile_cons_of_neg (by simpa using stays)]
      simp only [UInt64.le_iff_toNat_le]
      rfl
    case isFalse later =>
      have passes : partKey pi < partKey new := by
        rw [UInt64.not_le, UInt64.lt_iff_toNat_lt] at later
        exact later
      rw [induction, others, others, List.dropWhile_cons_of_pos (by simpa using passes)]

theorem countsUp_iff {new curr : PartInfo} {parts : List PartInfo} {position : Nat}
    (ordered : Ordered partKey parts) (found : parts[position]? = some curr) :
    countsUp (some curr) new parts = true ↔ (smaller partKey new parts).length ≤ position := by
  have whole := @smaller_append_others _ partKey new parts
  rw [countsUp_eq]
  by_cases before : position < (smaller partKey new parts).length
  · rw [← whole, List.getElem?_append_left before] at found
    have below := lt_of_mem_smaller (List.mem_of_getElem? found)
    refine iff_of_false ?_ (by omega)
    cases first : (others partKey new parts).head? with
    | none => simp
    | some pi =>
      have above := ordered.le_of_mem_others (List.mem_of_head? first)
      simp only [Option.any_some, decide_eq_true_eq]
      omega
  · rw [← whole, List.getElem?_append_right (by omega)] at found
    refine iff_of_true ?_ (by omega)
    cases rest : others partKey new parts with
    | nil =>
      rw [rest] at found
      cases found
    | cons pi later =>
      have tail : Ordered partKey (pi :: later) := by
        rw [← rest]
        exact ordered.sublist (List.dropWhile_sublist _)
      rw [rest] at found
      simp only [List.head?_cons, Option.any_some, decide_eq_true_eq]
      rcases List.mem_cons.mp (List.mem_of_getElem? found) with same | member
      · rw [same]
      · exact (List.pairwise_cons.mp tail).1 curr member

/-! ## The number stays with the partition -/

inductive PartOp
  | add (part : PartInfo)
  | del (place : Nat)

def PartOp.run (op : PartOp) (chips : Chips) (dev : MtdDevice) (partnum : UInt8) :
    Exec (Option (MtdDevice × UInt8)) :=
  match op with
  | .add part => partAddCurrent chips dev partnum part
  | .del place => partDelCurrent dev partnum place

def PartOp.Other (op : PartOp) (dev : MtdDevice) (partnum : UInt8) : Prop :=
  match op with
  | .add _ => True
  | .del place => place < dev.parts.length ∧ place ≠ partnum.toNat

def PartOp.moved (op : PartOp) (chips : Chips) (dev : MtdDevice) (position : Nat) : Nat :=
  match op with
  | .add part =>
      match partValidate chips dev.id part with
      | none => position
      | some part =>
          if (smaller partKey part dev.parts).length ≤ position then position + 1 else position
  | .del place => if place < position then position - 1 else position

/-- The operation returns, and the number is still that of the same partition. An operation
that is refused changes nothing. -/
def PartOp.Stable (op : PartOp) (chips : Chips) (dev : MtdDevice) (partnum : UInt8) : Prop :=
  ∃ result, op.run chips dev partnum = .ok result ∧
    ∀ next partnum', result = some (next, partnum') →
    partnum'.toNat = op.moved chips dev partnum.toNat ∧ partnum'.toNat < next.parts.length

/-- A partition that is added before the selected one does not take its number above 255, nor
the count of the partitions above 65535; a partition that is deleted is before the selected
one or has a larger offset. -/
def PartOp.Counts (op : PartOp) (chips : Chips) (dev : MtdDevice) (partnum : UInt8) : Prop :=
  match op with
  | .add part => ∀ valid, partValidate chips dev.id part = some valid →
      sortAdd valid dev.parts ≠ none → dev.parts.length < 65535 ∧
        ((smaller partKey valid dev.parts).length ≤ partnum.toNat → partnum ≠ 255)
  | .del place => place < partnum.toNat ∨ ∀ part curr, dev.parts[place]? = some part →
      dev.parts[partnum.toNat]? = some curr → curr.offset < part.offset

section

variable {chips : Chips} {dev : MtdDevice} {partnum : UInt8}

theorem indexPartitions_eq (counts : partnum.toNat < next.numParts.toNat)
    (there : partnum.toNat < next.parts.length) : indexPartitions next partnum = .ok () := by
  rw [indexPartitions, mtdPartInfo, if_neg (by omega), List.getElem?_eq_getElem there]

theorem indexPartitions_of_not_counted (missing : next.numParts.toNat ≤ partnum.toNat) :
    indexPartitions next partnum = .error .nullPointer := by
  rw [indexPartitions, mtdPartInfo, if_pos missing]

theorem length_insertBefore : (insertBefore partKey new parts).length = parts.length + 1 := by
  have whole := congrArg List.length (@smaller_append_others _ partKey new parts)
  rw [List.length_append] at whole
  rw [insertBefore, List.length_append, List.length_cons]
  omega

theorem toNat_add_one_eq_iff : (partnum + 1).toNat = partnum.toNat + 1 ↔ partnum ≠ 255 := by
  have bound : partnum.toNat < 256 := partnum.toNat_lt
  have value : (partnum + 1).toNat = (partnum.toNat + 1) % 256 := UInt8.toNat_add partnum 1
  rw [ne_eq, ← UInt8.toNat_inj]
  change _ ↔ ¬ partnum.toNat = 255
  omega

section

variable (wellformed : dev.Wellformed) (selected : partnum.toNat < dev.parts.length)
include wellformed selected

theorem partSortAddCurrent_stable_iff (added : sortAdd valid dev.parts = some sorted) :
    (∃ next partnum', partSortAddCurrent dev partnum valid = .ok (some (next, partnum')) ∧
      partnum'.toNat = (if (smaller partKey valid dev.parts).length ≤ partnum.toNat
        then partnum.toNat + 1 else partnum.toNat) ∧ partnum'.toNat < next.parts.length) ↔
      dev.parts.length < 65535 ∧
        ((smaller partKey valid dev.parts).length ≤ partnum.toNat → partnum ≠ 255) := by
  have counted := wellformed.counted
  have current : mtdPartInfo dev partnum.toNat = some dev.parts[partnum.toNat] := by
    rw [mtdPartInfo, if_neg (by omega), List.getElem?_eq_getElem selected]
  have up := @countsUp_iff valid _ _ _ wellformed.ordered (List.getElem?_eq_getElem selected)
  have length : sorted.length = dev.parts.length + 1 := by
    rw [sortAdd_eq_some added, length_insertBefore]
  have countBound : dev.numParts.toNat < 65536 := dev.numParts.toNat_lt
  have count : (dev.numParts + 1).toNat = (dev.parts.length + 1) % 65536 := by
    rw [← counted]
    exact UInt16.toNat_add dev.numParts 1
  rw [partSortAddCurrent, partSortAdd, added]
  dsimp only [Option.map_some]
  rw [current]
  obtain ⟨number, numbered⟩ : ∃ number, number =
      if countsUp (some dev.parts[partnum.toNat]) valid dev.parts = true then partnum + 1
      else partnum := ⟨_, rfl⟩
  rw [← numbered]
  have small : number.toNat ≤ partnum.toNat + 1 := by
    have bound := UInt8.toNat_add partnum 1
    rw [numbered]
    split
    · rw [bound]
      exact Nat.mod_le _ _
    · omega
  have right : number.toNat = (if (smaller partKey valid dev.parts).length ≤ partnum.toNat
      then partnum.toNat + 1 else partnum.toNat) ↔
        ((smaller partKey valid dev.parts).length ≤ partnum.toNat → partnum ≠ 255) := by
    rw [numbered]
    simp only [up]
    split
    case isTrue moves =>
      rw [toNat_add_one_eq_iff]
      exact ⟨fun same _ => same, fun same => same moves⟩
    case isFalse stays => exact iff_of_true rfl fun moves => absurd moves stays
  by_cases room : dev.parts.length < 65535
  · have indexed : indexPartitions { dev with parts := sorted, numParts := dev.numParts + 1 }
        number = .ok () := indexPartitions_eq (by dsimp only; omega) (by dsimp only; omega)
    rw [indexed, Exec.ok_bind]
    constructor
    · rintro ⟨next, number', returned, same, _⟩
      cases returned
      exact ⟨room, right.mp same⟩
    · rintro ⟨_, fits⟩
      exact ⟨_, number, rfl, right.mpr fits, by dsimp only; omega⟩
  · have wrapped : (dev.numParts + 1).toNat = 0 := by omega
    have missing : indexPartitions { dev with parts := sorted, numParts := dev.numParts + 1 }
        number = .error .nullPointer :=
      indexPartitions_of_not_counted (by dsimp only; rw [wrapped]; exact Nat.zero_le _)
    rw [missing, Exec.error_bind]
    refine iff_of_false ?_ fun both => room both.1
    rintro ⟨next, number', returned, _⟩
    cases returned

theorem partDelCurrent_eq (there : place < dev.parts.length) (other : place ≠ partnum.toNat) :
    partDelCurrent dev partnum place = do
      let number := if dev.parts[place].offset ≤ dev.parts[partnum.toNat].offset then partnum - 1
        else partnum
      indexPartitions ⟨dev.id, dev.numParts - 1, dev.parts.eraseIdx place⟩ number
      return some (⟨dev.id, dev.numParts - 1, dev.parts.eraseIdx place⟩, number) := by
  have counted := wellformed.counted
  have several : dev.numParts ≠ 1 := by
    intro one
    rw [one] at counted
    change 1 = _ at counted
    omega
  have current : mtdPartInfo dev partnum.toNat = some dev.parts[partnum.toNat] := by
    rw [mtdPartInfo, if_neg (by omega), List.getElem?_eq_getElem selected]
  rw [partDelCurrent, if_neg several, List.getElem?_eq_getElem there, current]
  dsimp only
  rw [if_neg other.symm]

theorem partDelCurrent_stable_iff (there : place < dev.parts.length)
    (other : place ≠ partnum.toNat) :
    (∃ next partnum', partDelCurrent dev partnum place = .ok (some (next, partnum')) ∧
      partnum'.toNat = (if place < partnum.toNat then partnum.toNat - 1 else partnum.toNat) ∧
        partnum'.toNat < next.parts.length) ↔
      place < partnum.toNat ∨ dev.parts[partnum.toNat].offset < dev.parts[place].offset := by
  have counted := wellformed.counted
  have length : (dev.parts.eraseIdx place).length = dev.parts.length - 1 :=
    List.length_eraseIdx_of_lt there
  have count : (dev.numParts - 1).toNat = dev.parts.length - 1 := by
    rw [UInt16.toNat_sub_of_le _ _ (by rw [UInt16.le_iff_toNat_le]; change 1 ≤ _; omega), counted]
    rfl
  rw [partDelCurrent_eq wellformed selected there other]
  by_cases before : place < partnum.toNat
  · have below : dev.parts[place].offset ≤ dev.parts[partnum.toNat].offset :=
      UInt64.le_iff_toNat_le.mpr
        (List.pairwise_iff_getElem.mp wellformed.ordered place partnum.toNat there selected before)
    have number : (partnum - 1).toNat = partnum.toNat - 1 :=
      UInt8.toNat_sub_of_le _ _ (by rw [UInt8.le_iff_toNat_le]; change 1 ≤ _; omega)
    dsimp only
    rw [if_pos below, indexPartitions_eq (by dsimp only; omega) (by dsimp only; omega),
      Exec.ok_bind, if_pos before]
    exact iff_of_true ⟨_, _, rfl, number, by dsimp only; omega⟩ (.inl before)
  · dsimp only
    rw [if_neg before]
    by_cases same : dev.parts[place].offset ≤ dev.parts[partnum.toNat].offset
    · -- A partition at the same offset is taken to be before the selected one.
      rw [if_pos same]
      refine iff_of_false ?_ ?_
      · rintro ⟨next, number, returned, unchanged, _⟩
        obtain ⟨_, _, returned⟩ := Exec.bind_eq_ok_iff.mp returned
        cases returned
        have bound : partnum.toNat < 256 := partnum.toNat_lt
        have wrong : (partnum - 1).toNat = (256 - 1 + partnum.toNat) % 256 :=
          UInt8.toNat_sub partnum 1
        omega
      · rintro (first | above)
        · exact before first
        · exact UInt64.not_le.mpr above same
    · have above : dev.parts[partnum.toNat].offset < dev.parts[place].offset :=
        UInt64.not_le.mp same
      rw [if_neg same, indexPartitions_eq (by dsimp only; omega) (by dsimp only; omega),
        Exec.ok_bind]
      exact iff_of_true ⟨_, _, rfl, rfl, by dsimp only; omega⟩ (.inr above)

end

/-- The number stays with the selected partition exactly if it counts as it should. -/
theorem partOp_stable_iff {op : PartOp} (wellformed : dev.Wellformed)
    (selected : partnum.toNat < dev.parts.length) (other : op.Other dev partnum) :
    op.Stable chips dev partnum ↔ op.Counts chips dev partnum := by
  cases op with
  | add part =>
    rw [PartOp.Stable, PartOp.Counts, PartOp.run, PartOp.moved, partAddCurrent]
    cases validated : partValidate chips dev.id part with
    | none =>
      refine iff_of_true ⟨none, rfl, ?_⟩ ?_
      · intro next number returned
        cases returned
      · intro valid equal
        cases equal
    | some valid =>
      dsimp only
      cases added : sortAdd valid dev.parts with
      | none =>
        have refused : partSortAddCurrent dev partnum valid = .ok none := by
          rw [partSortAddCurrent, partSortAdd, added]
          rfl
        refine iff_of_true ⟨none, refused, ?_⟩ ?_
        · intro next number returned
          cases returned
        · intro other equal done
          cases equal
          exact absurd added done
      | some sorted =>
        have stable := partSortAddCurrent_stable_iff wellformed selected added
        constructor
        · rintro ⟨result, returned, kept⟩ same equal _
          cases equal
          have done : result ≠ none := by
            rintro rfl
            rw [partSortAddCurrent, partSortAdd, added] at returned
            obtain ⟨_, _, returned⟩ := Exec.bind_eq_ok_iff.mp returned
            cases returned
          obtain ⟨⟨next, number⟩, rfl⟩ := Option.ne_none_iff_exists'.mp done
          exact stable.mp ⟨next, number, returned, kept next number rfl⟩
        · intro counts
          have fits := counts valid rfl (by rw [added]; simp)
          obtain ⟨next, number, returned, same, below⟩ := stable.mpr fits
          refine ⟨_, returned, ?_⟩
          intro next' number' equal
          cases equal
          exact ⟨same, below⟩
  | del place =>
    obtain ⟨there, different⟩ := other
    have stable := partDelCurrent_stable_iff wellformed selected there different
    have counts : (PartOp.del place).Counts chips dev partnum ↔ place < partnum.toNat ∨
        dev.parts[partnum.toNat].offset < dev.parts[place].offset := by
      rw [PartOp.Counts, List.getElem?_eq_getElem there, List.getElem?_eq_getElem selected]
      refine or_congr_right ⟨fun above => above _ _ rfl rfl, ?_⟩
      intro above part curr partFound currFound
      cases partFound
      cases currFound
      exact above
    rw [counts, ← stable, PartOp.Stable, PartOp.run]
    constructor
    · rintro ⟨result, returned, kept⟩
      have done : result ≠ none := by
        rintro rfl
        rw [partDelCurrent_eq wellformed selected there different] at returned
        obtain ⟨_, _, returned⟩ := Exec.bind_eq_ok_iff.mp returned
        cases returned
      obtain ⟨⟨next, number⟩, rfl⟩ := Option.ne_none_iff_exists'.mp done
      exact ⟨next, number, returned, kept next number rfl⟩
    · rintro ⟨next, number, returned, same, below⟩
      refine ⟨_, returned, ?_⟩
      intro next' number' equal
      cases equal
      exact ⟨same, below⟩

end

def partsAt (offsets : List UInt64) : MtdDevice :=
  ⟨exampleId, UInt16.ofNat offsets.length,
    offsets.map fun offset => ⟨.ofBytes [97], false, 0x100000, offset, 0⟩⟩

theorem partOp_stable_iff_gap :
    (PartOp.del 2).Stable exampleChips (partsAt [0, 0x100000, 0x200000]) 1 := by
  have ordered : Ordered partKey (partsAt [0, 0x100000, 0x200000]).parts := by
    rw [Ordered]
    decide
  have other : (PartOp.del 2).Other (partsAt [0, 0x100000, 0x200000]) 1 :=
    ⟨by decide, by decide⟩
  refine (partOp_stable_iff ⟨ordered, by decide⟩ (by decide) other).mpr (.inr ?_)
  intro part curr partFound currFound
  cases partFound
  cases currFound
  decide

theorem partDel_at_same_offset :
    ¬ (PartOp.del 2).Stable exampleChips (partsAt [0, 0x100000, 0x100000]) 1 := by
  rintro ⟨result, returned, kept⟩
  have wrong : partDelCurrent (partsAt [0, 0x100000, 0x100000]) 1 2 =
      .ok (some (partsAt [0, 0x100000], 0)) := by decide +kernel
  cases returned.symm.trans wrong
  exact absurd (kept _ _ rfl).1 (by decide)

end UBootV210.MtdParts
