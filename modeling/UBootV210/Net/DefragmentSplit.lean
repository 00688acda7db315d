import UBootV210.Net.DefragmentStep

/-! # Splits of a datagram

A datagram that is sent in pieces, and the places of its payload that are missing
when some of the pieces have arrived. -/

namespace UBootV210.Net

open StaticBuffer LinkedRecords

structure Split where
  pieces : List (List UInt8)
  some : pieces ≠ []
  aligned : ∀ index, index + 1 < pieces.length → (pieces.getD index []).length % 8 = 0
  fits : pieces.flatten.length ≤ ipMaxudp

variable {index first second place : Nat} {arrived : List Nat}

namespace Split

variable (split : Split)

def count : Nat := split.pieces.length

def total : Nat := split.pieces.flatten.length

def piece (index : Nat) : List UInt8 := split.pieces.getD index []

def start (index : Nat) : Nat := (split.pieces.take index).flatten.length

def reach (index : Nat) : Nat :=
  if index + 1 < split.count then split.start (index + 1) else 0xffff

def Missing (arrived : List Nat) (place : Nat) : Prop :=
  place < 0xffff ∧ ∀ index ∈ arrived, ¬ (split.start index ≤ place ∧ place < split.reach index)

variable {split}

theorem start_succ (inside : index < split.count) :
    split.start (index + 1) = split.start index + (split.piece index).length := by
  rw [start, start, piece, List.take_succ_eq_append_getElem inside, List.flatten_append,
    List.length_append, List.flatten_singleton, List.getD_eq_getElem _ _ inside]

theorem start_count : split.start split.count = split.total := by
  rw [start, count, List.take_length, total]

theorem total_lt : split.total < 0xffff := split.fits.trans_lt (by decide)

theorem start_mono (order : first ≤ second) (inside : second ≤ split.count) :
    split.start first ≤ split.start second := by
  induction second, order using Nat.le_induction with
  | base => exact le_rfl
  | succ second order induction =>
    have less : second < split.count := inside
    rw [start_succ less]
    exact (induction less.le).trans (Nat.le_add_right _ _)

theorem start_le_total (inside : index ≤ split.count) :
    split.start index ≤ split.total := by
  rw [← start_count]
  exact start_mono inside le_rfl

theorem start_zero : split.start 0 = 0 := rfl

theorem reach_mono (order : first < second) (inside : second < split.count) :
    split.reach first ≤ split.start second := by
  rw [reach, if_pos (by omega)]
  exact start_mono order inside.le

section

variable (nonempty : ∀ piece ∈ split.pieces, piece ≠ [])

include nonempty

theorem piece_length_pos (inside : index < split.count) : 0 < (split.piece index).length := by
  have member : split.piece index ∈ split.pieces := by
    rw [piece, List.getD_eq_getElem _ _ inside]
    exact List.getElem_mem inside
  exact List.length_pos_of_ne_nil (nonempty _ member)

theorem start_lt_total (inside : index < split.count) :
    split.start index < split.total := by
  have next : split.start (index + 1) ≤ split.total := start_le_total inside
  rw [start_succ inside] at next
  have positive := piece_length_pos nonempty inside
  omega

theorem start_lt_reach (inside : index < split.count) :
    split.start index < split.reach index := by
  rw [reach]
  split_ifs with more
  · rw [start_succ inside]
    have positive := piece_length_pos nonempty inside
    omega
  · exact (start_lt_total nonempty inside).trans total_lt

theorem start_strictMono (order : first < second) (inside : second < split.count) :
    split.start first < split.start second :=
  (start_lt_reach nonempty (order.trans inside)).trans_le (reach_mono order inside)

end

theorem start_mod (inside : index < split.count) : split.start index % 8 = 0 := by
  induction index with
  | zero => rfl
  | succ index induction =>
    have less : index < split.count := by omega
    rw [start_succ less, Nat.add_mod, induction less, piece, split.aligned index inside]

theorem exists_filling (inside : place < 0xffff) :
    ∃ index, index < split.count ∧ split.start index ≤ place ∧ place < split.reach index := by
  have positive : 0 < split.count := List.length_pos_of_ne_nil split.some
  let index := Nat.findGreatest (fun index => split.start index ≤ place) (split.count - 1)
  have below : split.start index ≤ place :=
    Nat.findGreatest_spec (P := fun index => split.start index ≤ place) (Nat.zero_le _)
      (Nat.zero_le place)
  have bound : index ≤ split.count - 1 := Nat.findGreatest_le _
  refine ⟨index, by omega, below, ?_⟩
  rw [reach]
  split_ifs with more
  · by_contra notLess
    have greatest : index + 1 ≤ index := Nat.le_findGreatest (by omega) (not_lt.mp notLess)
    omega
  · exact inside

theorem filling_unique (firstInside : first < split.count) (secondInside : second < split.count)
    (firstFills : split.start first ≤ place ∧ place < split.reach first)
    (secondFills : split.start second ≤ place ∧ place < split.reach second) : first = second := by
  rcases Nat.lt_trichotomy first second with less | equal | greater
  · have apart := reach_mono less secondInside
    omega
  · exact equal
  · have apart := reach_mono greater firstInside
    omega

theorem missing_nil : split.Missing [] place ↔ place < 0xffff := by
  simp [Missing]

theorem missing_cons :
    split.Missing (index :: arrived) place ↔
      split.Missing arrived place ∧ ¬ (split.start index ≤ place ∧ place < split.reach index) := by
  simp only [Missing, List.mem_cons, forall_eq_or_imp]
  tauto

theorem missing_of_notMem (known : ∀ other ∈ arrived, other < split.count)
    (inside : index < split.count) (absent : index ∉ arrived)
    (fills : split.start index ≤ place ∧ place < split.reach index) (small : place < 0xffff) :
    split.Missing arrived place := by
  refine ⟨small, fun other member filled => absent ?_⟩
  rw [filling_unique inside (known other member) fills filled]
  exact member

theorem not_missing_of_mem (present : index ∈ arrived)
    (fills : split.start index ≤ place ∧ place < split.reach index) :
    ¬ split.Missing arrived place := fun missing => missing.2 index present fills

end Split

end UBootV210.Net
