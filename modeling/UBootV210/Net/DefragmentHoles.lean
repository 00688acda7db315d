import UBootV210.Foundation.LinkedRecords
import UBootV210.Net.Defragment

/-! # The list of holes

The descriptors in the packet buffer hold a list of holes, each given by the unit
it starts at and by its end. What the operations of `__NetDefragment` do to the
list is stated without reference to the buffer. -/

namespace UBootV210.Net

open StaticBuffer LinkedRecords

/-! ## Descriptors -/

structure Hole where
  lastByte : Nat
  nextHole : Nat
  prevHole : Nat

def holeAt (buffer : Nat → UInt8) (hole : Nat) : Hole :=
  ⟨half buffer (ipHdrSize + 8 * hole), half buffer (ipHdrSize + 8 * hole + 2),
    half buffer (ipHdrSize + 8 * hole + 4)⟩

def units : Nat := 2058

def Confined (touched : List Nat) (buffer changed : Nat → UInt8) : Prop :=
  ∀ place, (∀ hole ∈ touched, place < ipHdrSize + 8 * hole ∨ ipHdrSize + 8 * hole + 8 ≤ place) →
    changed place = buffer place

def Writes (buffer : Nat → UInt8) (hole : Nat) (content : Hole)
    (store : Exec (Nat → UInt8)) : Prop :=
  ∃ changed, store = .ok changed ∧ holeAt changed = Function.update (holeAt buffer) hole content ∧
    Confined [hole] buffer changed

variable {touched : List Nat}

section

variable {buffer changed again : Nat → UInt8} {hole value : Nat}

theorem Confined.refl (touched : List Nat) : Confined touched buffer buffer := fun _ _ => rfl

theorem Confined.trans (first : Confined touched buffer changed)
    (second : Confined touched changed again) : Confined touched buffer again :=
  fun place outside => (second place outside).trans (first place outside)

theorem Confined.mono (confined : Confined few buffer changed)
    (subset : ∀ hole ∈ few, hole ∈ many) : Confined many buffer changed :=
  fun place outside => confined place fun hole member => outside hole (subset hole member)

theorem Confined.of_mem (confined : Confined [hole] buffer changed) (member : hole ∈ touched) :
    Confined touched buffer changed :=
  confined.mono fun _ only => List.mem_singleton.mp only ▸ member

theorem unit_inside (inside : hole < units) : ipHdrSize + 8 * hole + 8 ≤ ipPktsize := by
  simp only [units, ipHdrSize, ipPktsize] at *
  omega

theorem loadHole_eq (buffer : Nat → UInt8) (inside : hole < units) :
    loadLastByte buffer hole = .ok (holeAt buffer hole).lastByte ∧
      loadNextHole buffer hole = .ok (holeAt buffer hole).nextHole ∧
      loadPrevHole buffer hole = .ok (holeAt buffer hole).prevHole := by
  have room := unit_inside inside
  exact ⟨loadHalf_of_inside (by omega), loadHalf_of_inside (by omega),
    loadHalf_of_inside (by omega)⟩

theorem holeAt_congr (same : ∀ place, ipHdrSize + 8 * hole ≤ place →
    place < ipHdrSize + 8 * hole + 8 → changed place = buffer place) :
    holeAt changed hole = holeAt buffer hole := by
  rw [holeAt, holeAt, half_congr (same _ (by omega) (by omega)) (same _ (by omega) (by omega)),
    half_congr (same _ (by omega) (by omega)) (same _ (by omega) (by omega)),
    half_congr (same _ (by omega) (by omega)) (same _ (by omega) (by omega))]

theorem Confined.holeAt_eq (confined : Confined touched buffer changed)
    (notMember : hole ∉ touched) :
    holeAt changed hole = holeAt buffer hole := by
  apply holeAt_congr
  intro place low high
  apply confined
  intro other member
  have different : hole ≠ other := fun equal => notMember (equal ▸ member)
  omega

theorem writes_of_confined (success : store = .ok changed) (written : holeAt changed hole = content)
    (confined : Confined [hole] buffer changed) : Writes buffer hole content store := by
  refine ⟨changed, success, ?_, confined⟩
  funext other
  by_cases here : other = hole
  · subst here
    rw [written, Function.update_self]
  · rw [Function.update_of_ne here]
    exact confined.holeAt_eq (by simpa using here)

theorem storeHalf_writes (inside : hole < units) (low : ipHdrSize + 8 * hole ≤ address)
    (high : address + 2 ≤ ipHdrSize + 8 * hole + 8)
    (written : holeAt (putHalf buffer address value) hole = content) :
    Writes buffer hole content (storeHalf ipPktsize buffer address value) := by
  have room := unit_inside inside
  apply writes_of_confined (storeHalf_of_inside (by omega)) written
  intro place outside
  apply putHalf_of_outside
  have apart := outside hole List.mem_cons_self
  omega

theorem storeHole_writes (buffer : Nat → UInt8) (inside : hole < units) (inRange : value < 65536) :
    Writes buffer hole { holeAt buffer hole with lastByte := value }
        (storeLastByte buffer hole value) ∧
      Writes buffer hole { holeAt buffer hole with nextHole := value }
        (storeNextHole buffer hole value) ∧
      Writes buffer hole { holeAt buffer hole with prevHole := value }
        (storePrevHole buffer hole value) := by
  refine ⟨?_, ?_, ?_⟩
  all_goals
    apply storeHalf_writes inside (by omega) (by omega)
    rw [holeAt, half_putHalf inRange, half_putHalf_of_apart (by omega),
      half_putHalf_of_apart (by omega)]
    rfl

theorem copyHole_writes (buffer : Nat → UInt8) (inside : hole < units) (newInside : newh < units) :
    Writes buffer newh (holeAt buffer hole) (copyHole buffer newh hole) := by
  have room := unit_inside inside
  have newRoom := unit_inside newInside
  have copied (index : Nat) (small : index < 8) :
      putBytes buffer (ipHdrSize + 8 * newh) (slice buffer (ipHdrSize + 8 * hole) 8)
        (ipHdrSize + 8 * newh + index) = buffer (ipHdrSize + 8 * hole + index) := by
    rw [putBytes_of_inside (by rwa [length_slice])]
    simp only [slice, List.getElem_map, List.getElem_range]
  have whole : (slice buffer (ipHdrSize + 8 * hole) 8).take 8 =
      slice buffer (ipHdrSize + 8 * hole) 8 := List.take_of_length_le (by rw [length_slice])
  apply writes_of_confined
  · rw [copyHole, if_pos room, copyBytes_of_inside newRoom (by rw [length_slice]), whole]
  · simp only [holeAt, half]
    have first := copied 0 (by omega)
    rw [Nat.add_zero, Nat.add_zero] at first
    rw [first, copied 1 (by omega), copied 2 (by omega), Nat.add_assoc _ 2 1, copied 3 (by omega),
      copied 4 (by omega), Nat.add_assoc _ 4 1, copied 5 (by omega)]
  · intro place outside
    apply putBytes_of_outside
    exact outside newh List.mem_cons_self

end

/-- Each hole starts in the buffer and has a part before its end; the holes are in
order and do not overlap. -/
structure Ordered (holes : List (Nat × Nat)) : Prop where
  proper : ∀ hole ∈ holes, hole.1 < units ∧ 8 * hole.1 < hole.2
  apart : holes.Pairwise fun left right => left.2 ≤ 8 * right.1

structure Linked (defrag : Defrag) (holes : List (Nat × Nat)) : Prop where
  nonempty : holes ≠ []
  first : defrag.firstHole = firstOr 0 holes
  segment : Segment Hole.lastByte Hole.nextHole Hole.prevHole (holeAt defrag.pktBuff) 0 holes 0
  ordered : Ordered holes

namespace Ordered

variable {holes before after : List (Nat × Nat)} {hole : Nat × Nat}

theorem increasing (ordered : Ordered holes) : (holes.map Prod.fst).Pairwise (· < ·) := by
  rw [List.pairwise_map]
  apply ordered.apart.imp_of_mem
  intro left right member _ apart
  have proper := (ordered.proper left member).2
  omega

theorem nodup (ordered : Ordered holes) : (holes.map Prod.fst).Nodup :=
  ordered.increasing.imp fun less => Nat.ne_of_lt less

theorem length_le (ordered : Ordered holes) : holes.length ≤ units := by
  have subset : holes.map Prod.fst ⊆ List.range units := by
    intro index member
    obtain ⟨hole, holeMember, rfl⟩ := List.mem_map.mp member
    exact List.mem_range.mpr (ordered.proper hole holeMember).1
  have shorter := (ordered.nodup.subperm subset).length_le
  rwa [List.length_map, List.length_range] at shorter

theorem append_iff : Ordered (before ++ after) ↔
    Ordered before ∧ Ordered after ∧ ∀ left ∈ before, ∀ right ∈ after, left.2 ≤ 8 * right.1 := by
  constructor
  · intro ordered
    have parts := List.pairwise_append.mp ordered.apart
    exact ⟨⟨fun hole member => ordered.proper hole (List.mem_append_left _ member), parts.1⟩,
      ⟨fun hole member => ordered.proper hole (List.mem_append_right _ member), parts.2.1⟩,
      parts.2.2⟩
  · rintro ⟨front, back, between⟩
    refine ⟨?_, List.pairwise_append.mpr ⟨front.apart, back.apart, between⟩⟩
    intro hole member
    rcases List.mem_append.mp member with member | member
    · exact front.proper hole member
    · exact back.proper hole member

theorem cons_iff : Ordered (hole :: after) ↔
    (hole.1 < units ∧ 8 * hole.1 < hole.2) ∧ (∀ right ∈ after, hole.2 ≤ 8 * right.1) ∧
      Ordered after := by
  constructor
  · intro ordered
    have parts := List.pairwise_cons.mp ordered.apart
    exact ⟨ordered.proper hole List.mem_cons_self, parts.1,
      ⟨fun other member => ordered.proper other (List.mem_cons_of_mem _ member), parts.2⟩⟩
  · rintro ⟨proper, above, rest⟩
    refine ⟨?_, List.pairwise_cons.mpr ⟨above, rest.apart⟩⟩
    intro other member
    rcases List.mem_cons.mp member with rfl | member
    · exact proper
    · exact rest.proper other member

end Ordered

variable {holes : List (Nat × Nat)}

theorem findHole_eq
    (segment : Segment Hole.lastByte Hole.nextHole Hole.prevHole (holeAt buffer) precedes holes 0)
    (ordered : Ordered holes) (nonempty : holes ≠ []) (enough : holes.length ≤ fuel) :
    findHole buffer start fuel (firstOr 0 holes) =
      .ok ((holes.find? fun hole => start ≤ hole.2).map Prod.fst) := by
  induction holes generalizing precedes fuel with
  | nil => exact absurd rfl nonempty
  | cons hole holes induction =>
    obtain ⟨holds, _, after, rest⟩ := segment
    obtain ⟨proper, above, orderedRest⟩ := Ordered.cons_iff.mp ordered
    cases fuel with
    | zero => simp at enough
    | succ fuel =>
      rw [firstOr_cons, findHole, (loadHole_eq buffer proper.1).1, Exec.ok_bind, holds]
      by_cases reaches : start ≤ hole.2
      · rw [if_neg (by omega), List.find?_cons_of_pos (by simpa using reaches)]
        rfl
      · rw [if_pos (by omega), (loadHole_eq buffer proper.1).2.1, Exec.ok_bind, after,
          List.find?_cons_of_neg (by simpa using reaches)]
        cases holes with
        | nil => rfl
        | cons second holes =>
          have later := above second List.mem_cons_self
          rw [if_neg (by rw [firstOr_cons]; omega)]
          exact induction rest orderedRest (List.cons_ne_nil _ _) (by simpa using enough)

/-- What a list of holes looks like around the hole that a fragment meets. -/
structure Cut (holes before : List (Nat × Nat)) (hole last : Nat) (after : List (Nat × Nat))
    (start : Nat) : Prop where
  shape : holes = before ++ (hole, last) :: after
  passed : ∀ other ∈ before, other.2 < start
  reaches : start ≤ last

theorem findHole_cases (start : Nat) (linked : Linked defrag holes) :
    (findHole defrag.pktBuff start walkFuel defrag.firstHole = .ok none ∧
        ∀ hole ∈ holes, hole.2 < start) ∨
      ∃ before hole last after, Cut holes before hole last after start ∧
        findHole defrag.pktBuff start walkFuel defrag.firstHole = .ok (some hole) := by
  have enough : holes.length ≤ walkFuel := linked.ordered.length_le.trans (by decide)
  rw [linked.first, findHole_eq linked.segment linked.ordered linked.nonempty enough]
  cases found : holes.find? fun hole => start ≤ hole.2 with
  | none =>
    left
    refine ⟨rfl, fun hole member => ?_⟩
    have short := List.find?_eq_none.mp found hole member
    simpa using short
  | some hole =>
    right
    obtain ⟨reaches, before, after, shape, passed⟩ := List.find?_eq_some_iff_append.mp found
    refine ⟨before, hole.1, hole.2, after, ⟨shape, ?_, by simpa using reaches⟩, rfl⟩
    intro other member
    simpa using passed other member

end UBootV210.Net
