import Mathlib

/-! # C strings and execution faults

Values and failure modes shared by the embeddings of C functions. -/

namespace UBootV210

/-- A NUL-terminated C string, given by the bytes before its terminator. -/
structure CString where
  bytes : List UInt8
  nulFree : 0 ∉ bytes
  deriving DecidableEq

namespace CString

@[ext] theorem ext {left right : CString} (equal : left.bytes = right.bytes) :
    left = right := by
  cases left
  cases right
  cases equal
  rfl

/-- The string that starts a byte sequence, up to its first NUL. -/
def ofBytes (bytes : List UInt8) : CString where
  bytes := bytes.takeWhile (· ≠ 0)
  nulFree := by
    intro member
    simpa using List.mem_takeWhile_imp member

theorem ofBytes_bytes {bytes : List UInt8} (nulFree : 0 ∉ bytes) :
    (ofBytes bytes).bytes = bytes := by
  apply List.takeWhile_eq_self_iff.mpr
  intro byte member
  simp only [ne_eq, decide_eq_true_eq]
  rintro rfl
  exact nulFree member

@[simp] theorem ofBytes_self (string : CString) : ofBytes string.bytes = string :=
  CString.ext (ofBytes_bytes string.nulFree)

theorem ofBytes_cut {bytes : List UInt8} (nulFree : 0 ∉ bytes) {rest : List UInt8} :
    ofBytes (bytes ++ 0 :: rest) = ⟨bytes, nulFree⟩ := by
  apply CString.ext
  change (bytes ++ 0 :: rest).takeWhile (· ≠ 0) = bytes
  have kept : ∀ byte ∈ bytes, decide (byte ≠ 0) = true := by
    intro byte member
    simp only [ne_eq, decide_eq_true_eq]
    rintro rfl
    exact nulFree member
  rw [List.takeWhile_append_of_pos kept, List.takeWhile_cons_of_neg (by simp), List.append_nil]

def length (string : CString) : Nat := string.bytes.length

end CString

/-- The ways an embedded C function can fail to return. -/
inductive Fault
  | nullPointer
  | outOfBounds
  | diverges
  deriving DecidableEq, Repr

abbrev Exec (α : Type) := Except Fault α

namespace Exec

variable {α β Error : Type}

@[simp] theorem ok_bind : ((Except.ok value : Exec α) >>= next) = next value := rfl

@[simp] theorem error_bind : ((Except.error fault : Exec α) >>= next) = .error fault := rfl

theorem bind_eq_ok_iff {first : Exec α} {next : α → Exec β} :
    (first >>= next) = .ok result ↔ ∃ value, first = .ok value ∧ next value = .ok result := by
  cases first with
  | error fault =>
    constructor
    · intro equal
      cases equal
    · rintro ⟨_, equal, _⟩
      cases equal
  | ok value =>
    constructor
    · intro equal
      exact ⟨value, rfl, equal⟩
    · rintro ⟨_, equal, rest⟩
      cases equal
      exact rest

theorem bind_eq_error {first : Exec α} {next : α → Exec β}
    (failed : (first >>= next) = .error fault) :
    first = .error fault ∨ ∃ value, next value = .error fault := by
  cases first with
  | error other =>
    cases failed
    exact .inl rfl
  | ok value => exact .inr ⟨value, failed⟩

theorem map_eq_ok {result : Exec α} {change : α → β} (mapped : result.map change = .ok changed) :
    ∃ value, result = .ok value ∧ change value = changed := by
  cases result with
  | error fault => cases mapped
  | ok value => exact ⟨value, rfl, Except.ok.inj mapped⟩

theorem bind_ne_error {first : Exec α} {next : α → Exec β} (head : first ≠ .error fault)
    (tail : ∀ value, next value ≠ .error fault) : (first >>= next) ≠ .error fault := by
  cases first with
  | error other =>
    rintro ⟨⟩
    exact head rfl
  | ok value => exact tail value

theorem error_ne {result : Exec α} (other : result ≠ .error fault)
    (failed : result = .error raised) : (.error raised : Exec β) ≠ .error fault := by
  rintro ⟨⟩
  exact other failed

def Returns (result : Except Error α) (holds : α → Prop) : Prop :=
  match result with
  | .error _ => False
  | .ok value => holds value

instance {result : Except Error α} {holds : α → Prop} [DecidablePred holds] :
    Decidable (Returns result holds) :=
  match result with
  | .error _ => isFalse id
  | .ok value => inferInstanceAs (Decidable (holds value))

instance {result : Exec α} {fault : Fault} : Decidable (result = .error fault) :=
  match result with
  | .error other => decidable_of_iff (other = fault) ⟨congrArg _, Except.error.inj⟩
  | .ok _ => isFalse nofun

theorem Returns.exists (returns : Returns result holds) :
    ∃ value, result = .ok value ∧ holds value := by
  cases result with
  | error fault => exact returns.elim
  | ok value => exact ⟨value, rfl, returns⟩

end Exec

end UBootV210
