import UBootV210.Foundation.CString

/-! # The path buffer of the NFS client

The accesses of `basename` and `dirname` to `nfs_path_buff`. -/

namespace UBootV210.Net.Nfs

def nfsPathSize : Nat := 2048

def inPath (place : Int) : Exec Nat :=
  if 0 ≤ place ∧ place < nfsPathSize then .ok place.toNat else .error .outOfBounds

/-- The scan of `basename` from behind. Without a slash it ends in front of the path. -/
def basenameLoop (path : List UInt8) : Nat → Int
  | 0 => -1
  | fname + 1 => if path[fname]? = some 47 then fname + 1 else basenameLoop path fname

def basename (path : List UInt8) : Int := basenameLoop path path.length

/-- The texts at `nfs_path` and `nfs_filename` when `dirname` has stored its NUL. -/
def splitNames (path : List UInt8) : Exec (List UInt8 × List UInt8) := do
  let fname ← inPath (basename path)
  let cut ← inPath (basename path - 1)
  return (path.take cut, path.drop fname)

def IsSplit (path directory name : List UInt8) : Prop :=
  47 ∉ name ∧ (path = directory ++ 47 :: name ∨ directory = [] ∧ path = name)

section

variable {path directory name : List UInt8}

theorem basenameLoop_of_notMem (absent : 47 ∉ path) : basenameLoop path count = -1 := by
  induction count with
  | zero => rfl
  | succ fname induction =>
    rw [basenameLoop, if_neg (fun found => absent (List.mem_of_getElem? found)), induction]

theorem basenameLoop_of_slash (absent : 47 ∉ name) (count : Nat) :
    basenameLoop (directory ++ 47 :: name) (directory.length + 1 + count) =
      directory.length + 1 := by
  induction count with
  | zero => simp [basenameLoop]
  | succ count induction =>
    have other : (directory ++ 47 :: name)[directory.length + 1 + count]? ≠ some 47 := by
      rw [Nat.add_assoc, List.getElem?_append_right (by omega), Nat.add_sub_cancel_left,
        Nat.add_comm, List.getElem?_cons_succ]
      exact fun found => absent (List.mem_of_getElem? found)
    rw [← Nat.add_assoc, basenameLoop, if_neg other, induction]

theorem splitNames_of_slash (absent : 47 ∉ name)
    (fits : (directory ++ 47 :: name).length < nfsPathSize) :
    splitNames (directory ++ 47 :: name) = .ok (directory, name) := by
  have place : basename (directory ++ 47 :: name) = directory.length + 1 := by
    have whole := @basenameLoop_of_slash directory name absent name.length
    rw [basename, List.length_append, List.length_cons, ← whole]
    congr 1
    omega
  simp only [List.length_append, List.length_cons] at fits
  have inside : inPath (directory.length + 1) = .ok (directory.length + 1) := by
    rw [inPath, if_pos (by omega)]
    rfl
  have cut : inPath (directory.length + 1 - 1) = .ok directory.length := by
    rw [inPath, if_pos (by omega)]
    simp
  rw [splitNames, place, inside, cut]
  simp [pure, Except.pure]

theorem exists_last_slash (member : 47 ∈ path) :
    ∃ directory name, path = directory ++ 47 :: name ∧ 47 ∉ name := by
  induction path with
  | nil => cases member
  | cons byte rest induction =>
    by_cases later : 47 ∈ rest
    · rcases induction later with ⟨directory, name, rfl, absent⟩
      exact ⟨byte :: directory, name, rfl, absent⟩
    · have first : byte = 47 := by simpa [later, eq_comm] using member
      exact ⟨[], rest, by rw [first]; rfl, later⟩

theorem splitNames_of_mem (member : 47 ∈ path) (fits : path.length < nfsPathSize) :
    ∃ directory name, path = directory ++ 47 :: name ∧ 47 ∉ name ∧
      splitNames path = .ok (directory, name) := by
  obtain ⟨directory, name, rfl, absent⟩ := exists_last_slash member
  exact ⟨directory, name, rfl, absent, splitNames_of_slash absent fits⟩

theorem splitNames_iff (path : CString) (fits : path.length < nfsPathSize) :
    (∃ directory name, splitNames path.bytes = .ok (directory, name) ∧
      IsSplit path.bytes directory name) ↔ 47 ∈ path.bytes := by
  constructor
  · rintro ⟨directory, name, split, _⟩
    by_contra absent
    rw [splitNames, basename, basenameLoop_of_notMem absent] at split
    cases split
  · intro slash
    obtain ⟨directory, name, equal, absent, split⟩ := splitNames_of_mem slash fits
    exact ⟨directory, name, split, absent, .inl equal⟩

end

theorem splitNames_iff_inner :
    ∃ directory name, splitNames [47, 97, 47, 98] = .ok (directory, name) ∧
      IsSplit [47, 97, 47, 98] directory name :=
  (splitNames_iff ⟨[47, 97, 47, 98], by decide⟩ (by decide)).mpr (by decide)

/-- For a name without a directory the byte in front of the buffer is taken. -/
theorem splitNames_without_slash : basename [97] = -1 ∧ splitNames [97] = .error .outOfBounds :=
  ⟨rfl, rfl⟩

end UBootV210.Net.Nfs
