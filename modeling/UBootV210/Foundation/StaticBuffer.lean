import UBootV210.Foundation.CString

/-! # Byte buffers of a fixed size

A buffer is given by the byte at each address. Accesses of halfwords (the low byte
comes first) and of byte sequences are checked against the size of the buffer. -/

namespace UBootV210.StaticBuffer

def half (buffer : Nat → UInt8) (address : Nat) : Nat :=
  (buffer address).toNat + 256 * (buffer (address + 1)).toNat

def putHalf (buffer : Nat → UInt8) (address value : Nat) (place : Nat) : UInt8 :=
  if place = address then UInt8.ofNat value
  else if place = address + 1 then UInt8.ofNat (value / 256)
  else buffer place

def putBytes (buffer : Nat → UInt8) (address : Nat) (bytes : List UInt8) (place : Nat) : UInt8 :=
  if address ≤ place then (bytes[place - address]?).getD (buffer place) else buffer place

def slice (buffer : Nat → UInt8) (address count : Nat) : List UInt8 :=
  (List.range count).map fun index => buffer (address + index)

variable {buffer changed : Nat → UInt8} {address other value : Nat} {bytes : List UInt8}

theorem half_congr (low : changed address = buffer address)
    (high : changed (address + 1) = buffer (address + 1)) :
    half changed address = half buffer address := by
  rw [half, half, low, high]

theorem half_putHalf (inRange : value < 65536) :
    half (putHalf buffer address value) address = value := by
  have low : putHalf buffer address value address = UInt8.ofNat value := by
    rw [putHalf, if_pos rfl]
  have high : putHalf buffer address value (address + 1) = UInt8.ofNat (value / 256) := by
    rw [putHalf, if_neg (by omega), if_pos rfl]
  rw [half, low, high, UInt8.toNat_ofNat', UInt8.toNat_ofNat']
  omega

theorem putHalf_of_outside (outside : other < address ∨ address + 2 ≤ other) :
    putHalf buffer address value other = buffer other := by
  rw [putHalf, if_neg (by omega), if_neg (by omega)]

theorem half_putHalf_of_apart (apart : other + 2 ≤ address ∨ address + 2 ≤ other) :
    half (putHalf buffer address value) other = half buffer other :=
  half_congr (putHalf_of_outside (by omega)) (putHalf_of_outside (by omega))

theorem putBytes_of_outside (outside : other < address ∨ address + bytes.length ≤ other) :
    putBytes buffer address bytes other = buffer other := by
  rw [putBytes]
  split
  · rw [List.getElem?_eq_none (by omega)]
    rfl
  · rfl

theorem putBytes_of_inside (inside : index < bytes.length) :
    putBytes buffer address bytes (address + index) = bytes[index] := by
  rw [putBytes, if_pos (Nat.le_add_right _ _), Nat.add_sub_cancel_left,
    List.getElem?_eq_getElem inside]
  rfl

@[simp] theorem length_slice : (slice buffer address count).length = count := by
  rw [slice, List.length_map, List.length_range]

theorem getD_slice (inside : index < count) (default : UInt8) :
    (slice buffer address count).getD index default = buffer (address + index) := by
  rw [List.getD_eq_getElem _ _ (by rwa [length_slice])]
  simp only [slice, List.getElem_map, List.getElem_range]

theorem slice_eq_of_forall (equal : ∀ (index : Nat) (inside : index < bytes.length),
      buffer (address + index) = bytes[index]) :
    slice buffer address bytes.length = bytes := by
  apply List.ext_getElem length_slice
  intro index _ inside
  simp only [slice, List.getElem_map, List.getElem_range]
  exact equal index inside

variable (size : Nat)

def loadHalf (buffer : Nat → UInt8) (address : Nat) : Exec Nat :=
  if address + 2 ≤ size then .ok (half buffer address) else .error .outOfBounds

def storeHalf (buffer : Nat → UInt8) (address value : Nat) : Exec (Nat → UInt8) :=
  if address + 2 ≤ size then .ok (putHalf buffer address value) else .error .outOfBounds

def copyBytes (buffer : Nat → UInt8) (address : Nat) (source : List UInt8) (count : Nat) :
    Exec (Nat → UInt8) :=
  if address + count ≤ size ∧ count ≤ source.length then
    .ok (putBytes buffer address (source.take count))
  else
    .error .outOfBounds

variable {size}

theorem loadHalf_of_inside (inside : address + 2 ≤ size) :
    loadHalf size buffer address = .ok (half buffer address) := if_pos inside

theorem storeHalf_of_inside (inside : address + 2 ≤ size) :
    storeHalf size buffer address value = .ok (putHalf buffer address value) := if_pos inside

theorem copyBytes_of_inside (inside : address + count ≤ size) (available : count ≤ source.length) :
    copyBytes size buffer address source count =
      .ok (putBytes buffer address (source.take count)) := if_pos ⟨inside, available⟩

end UBootV210.StaticBuffer
