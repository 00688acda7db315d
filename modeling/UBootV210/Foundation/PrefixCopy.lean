import UBootV210.Foundation.StaticBuffer

/-! # Copies of a file that grow from its start

A memory that holds the first bytes of a file, and the writes that keep or extend
what it holds. -/

namespace UBootV210.PrefixCopy

open StaticBuffer

def HoldsUpTo (memory : Nat → UInt8) (file : List UInt8) (count : Nat) : Prop :=
  ∀ (place : Nat) (inside : place < file.length), place < count → memory place = file[place]

variable {memory : Nat → UInt8} {file bytes : List UInt8} {count start length : Nat}

theorem HoldsUpTo.zero : HoldsUpTo memory file 0 := by
  intro place _ less
  omega

theorem HoldsUpTo.putBytes_part (holds : HoldsUpTo memory file count) (start_le : start ≤ count) :
    HoldsUpTo (putBytes memory start ((file.drop start).take length)) file
      (max count (start + length)) := by
  intro place inside less
  by_cases written : start ≤ place ∧ place < start + length
  · obtain ⟨offset, rfl⟩ := Nat.exists_eq_add_of_le written.1
    have available : offset < ((file.drop start).take length).length := by
      rw [List.length_take, List.length_drop]
      omega
    rw [putBytes_of_inside available, List.getElem_take, List.getElem_drop]
  · have outside : place < start ∨ start + ((file.drop start).take length).length ≤ place := by
      rw [List.length_take]
      omega
    rw [putBytes_of_outside outside]
    exact holds place inside (by omega)

theorem HoldsUpTo.putBytes_append (holds : HoldsUpTo memory file file.length) :
    HoldsUpTo (putBytes memory file.length bytes) (file ++ bytes) (file ++ bytes).length := by
  intro place inside _
  by_cases first : place < file.length
  · rw [putBytes_of_outside (.inl first), List.getElem_append_left first]
    exact holds place first first
  · obtain ⟨offset, rfl⟩ := Nat.exists_eq_add_of_le (Nat.le_of_not_lt first)
    rw [List.length_append] at inside
    have available : offset < bytes.length := by
      omega
    rw [putBytes_of_inside available, List.getElem_append_right (Nat.le_add_right _ _)]
    simp only [Nat.add_sub_cancel_left]

theorem HoldsUpTo.of_isPrefix (before : first <+: file)
    (holds : HoldsUpTo memory file file.length) : HoldsUpTo memory first first.length := by
  intro place inside _
  have longer := inside.trans_le before.length_le
  rw [holds place longer longer]
  exact (before.getElem inside).symm

end UBootV210.PrefixCopy
