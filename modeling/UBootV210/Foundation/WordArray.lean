import UBootV210.Foundation.CheckedMemory

/-! # Numbers held in arrays of words

The number that an array of 32-bit words holds with its lowest word first, and
the number that an array of bytes holds with its highest byte first. -/

namespace UBootV210.WordArray

def value (words : List UInt32) : Nat := Nat.ofDigits (2 ^ 32) (words.map UInt32.toNat)

def bigEndian (bytes : List UInt8) : Nat := Nat.ofDigits 256 (bytes.reverse.map UInt8.toNat)

variable {words left right : List UInt32} {word : UInt32}

@[simp] theorem value_nil : value [] = 0 := rfl

theorem value_cons : value (word :: words) = word.toNat + 2 ^ 32 * value words := by
  rfl

theorem value_append :
    value (left ++ right) = value left + 2 ^ (32 * left.length) * value right := by
  rw [value, List.map_append, Nat.ofDigits_append, List.length_map, ← Nat.pow_mul]
  rfl

theorem value_singleton : value [word] = word.toNat := by
  rfl

theorem value_concat :
    value (words ++ [word]) = value words + 2 ^ (32 * words.length) * word.toNat := by
  rw [value_append, value_singleton]

theorem digits_lt : ∀ digit ∈ words.map UInt32.toNat, digit < 2 ^ 32 := by
  intro digit member
  obtain ⟨word, _, rfl⟩ := List.mem_map.mp member
  exact word.toNat_lt

theorem value_lt : value words < 2 ^ (32 * words.length) := by
  rw [Nat.pow_mul, ← List.length_map UInt32.toNat]
  exact Nat.ofDigits_lt_base_pow_length (by decide) digits_lt

theorem value_replicate_zero : value (List.replicate count 0) = 0 := by
  rw [value, List.map_replicate]
  exact Nat.ofDigits_replicate_zero ..

/-- The highest words decide between numbers of one length. -/
theorem value_concat_lt (sized : left.length = right.length) (less : word < high) :
    value (left ++ [word]) < value (right ++ [high]) := by
  have low : value left < 2 ^ (32 * left.length) := value_lt
  have step : 2 ^ (32 * left.length) * (word.toNat + 1) ≤ 2 ^ (32 * left.length) * high.toNat :=
    Nat.mul_le_mul_left _ (UInt32.lt_iff_toNat_lt.mp less)
  rw [value_concat, value_concat, ← sized]
  rw [Nat.mul_add] at step
  omega

theorem bigEndian_append (left right : List UInt8) :
    bigEndian (left ++ right) = 256 ^ right.length * bigEndian left + bigEndian right := by
  rw [bigEndian, List.reverse_append, List.map_append, Nat.ofDigits_append, List.length_map,
    List.length_reverse, Nat.add_comm]
  rfl

end UBootV210.WordArray
