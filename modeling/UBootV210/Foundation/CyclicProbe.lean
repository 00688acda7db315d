import Mathlib

/-! # Cyclic probe sequences

Walking backwards with a fixed stride over the cyclic index range `1 .. size`.
A stride that is coprime to the size visits every index once before the walk
returns to its start. -/

namespace UBootV210.CyclicProbe

/-- One backward step of length `stride`. Index zero is outside the range, so
a step that would reach it wraps to `size`. -/
def back (size stride index : Nat) : Nat :=
  if index ≤ stride then size + index - stride else index - stride

def position (size stride start : Nat) : Nat → Nat
  | 0 => start
  | count + 1 => back size stride (position size stride start count)

/-- The indices of one complete walk, in the order they are visited. -/
def order (size stride start : Nat) : List Nat :=
  (List.range size).map (position size stride start)

variable {index : Nat}

section

variable {size stride start : Nat}

@[simp] theorem position_zero : position size stride start 0 = start := rfl

theorem position_succ : position size stride start (count + 1) =
      back size stride (position size stride start count) := rfl

@[simp] theorem order_length : (order size stride start).length = size := by
  simp [order]

theorem mem_order : index ∈ order size stride start ↔
      ∃ count < size, position size stride start count = index := by
  simp [order]

section

variable (strideLe : stride ≤ size)
include strideLe

theorem back_bounds (strictStride : 0 < stride) (lower : 1 ≤ index) (upper : index ≤ size) :
    1 ≤ back size stride index ∧ back size stride index ≤ size := by
  unfold back
  split <;> omega

theorem position_bounds (strictStride : 0 < stride) (lower : 1 ≤ start) (upper : start ≤ size)
    (count : Nat) :
    1 ≤ position size stride start count ∧ position size stride start count ≤ size := by
  induction count with
  | zero => exact ⟨lower, upper⟩
  | succ count induction =>
    exact back_bounds strideLe strictStride induction.1 induction.2

theorem back_modEq (index : Nat) : back size stride index + stride ≡ index [MOD size] := by
  unfold back
  split
  · have sum : size + index - stride + stride = size + index := by omega
    rw [sum]
    simp [Nat.ModEq]
  · have sum : index - stride + stride = index := by omega
    rw [sum]

theorem position_modEq (start count : Nat) :
    position size stride start count + count * stride ≡ start [MOD size] := by
  induction count with
  | zero => simp [Nat.ModEq]
  | succ count induction =>
    have step := (back_modEq strideLe (position size stride start count)).add_right (count * stride)
    have regroup : position size stride start (count + 1) + (count + 1) * stride =
        back size stride (position size stride start count) + stride + count * stride := by
      rw [position_succ]
      ring
    rw [regroup]
    exact step.trans induction

theorem count_modEq_of_position_eq (coprime : Nat.Coprime size stride)
    (equal : position size stride start left = position size stride start right) :
    left ≡ right [MOD size] := by
  have leftWalk := position_modEq strideLe start left
  have rightWalk := position_modEq strideLe start right
  rw [equal] at leftWalk
  have products : left * stride ≡ right * stride [MOD size] :=
    Nat.ModEq.add_left_cancel' _ (leftWalk.trans rightWalk.symm)
  exact Nat.ModEq.cancel_right_of_coprime coprime products

theorem position_injOn (coprime : Nat.Coprime size stride) (leftLt : left < size)
    (rightLt : right < size)
    (equal : position size stride start left = position size stride start right) :
    left = right := by
  have congruent := count_modEq_of_position_eq strideLe coprime equal
  exact Nat.ModEq.eq_of_lt_of_lt congruent leftLt rightLt

theorem position_size (strictStride : 0 < stride) (lower : 1 ≤ start) (upper : start ≤ size) :
    position size stride start size = start := by
  have walk := position_modEq strideLe start size
  have reduced : position size stride start size ≡ start [MOD size] := by
    simpa [Nat.ModEq, Nat.add_mul_mod_self_left] using walk
  have bounds := position_bounds strideLe strictStride lower upper size
  -- Both ends lie in `1 .. size`, where only `size` itself is congruent to zero.
  generalize position size stride start size = reached at reduced bounds ⊢
  rcases Nat.lt_or_ge reached size with inside | atEnd
  · rcases Nat.lt_or_ge start size with startInside | startAtEnd
    · exact Nat.ModEq.eq_of_lt_of_lt reduced inside startInside
    · have startEq : start = size := by omega
      rw [Nat.ModEq, Nat.mod_eq_of_lt inside, startEq, Nat.mod_self] at reduced
      omega
  · have reachedEq : reached = size := by omega
    rcases Nat.lt_or_ge start size with startInside | startAtEnd
    · rw [Nat.ModEq, reachedEq, Nat.mod_self, Nat.mod_eq_of_lt startInside] at reduced
      omega
    · omega

theorem order_nodup (coprime : Nat.Coprime size stride) : (order size stride start).Nodup := by
  apply List.Nodup.map_on _ List.nodup_range
  intro left leftMem right rightMem equal
  exact position_injOn strideLe coprime (List.mem_range.mp leftMem)
    (List.mem_range.mp rightMem) equal

/-- One walk visits every index of the range. -/
theorem exists_position (strictStride : 0 < stride) (coprime : Nat.Coprime size stride)
    (lower : 1 ≤ start) (upper : start ≤ size) (indexLower : 1 ≤ index)
    (indexUpper : index ≤ size) :
    ∃ count < size, position size stride start count = index := by
  have subset : order size stride start ⊆ List.range' 1 size := by
    intro visited member
    obtain ⟨count, _, rfl⟩ := mem_order.mp member
    have bounds := position_bounds strideLe strictStride lower upper count
    rw [List.mem_range'_1]
    omega
  have subperm : (order size stride start).Subperm (List.range' 1 size) :=
    (order_nodup strideLe coprime).subperm subset
  have perm : (order size stride start).Perm (List.range' 1 size) :=
    subperm.perm_of_length_le (by simp)
  have member : index ∈ order size stride start := by
    rw [perm.mem_iff, List.mem_range'_1]
    omega
  exact mem_order.mp member

end

end

end UBootV210.CyclicProbe
