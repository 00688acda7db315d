import UBootV210.Environment.EnvAttrAgree

/-! # Where the search of `env_attr_lookup` ends

The scan to the left of a hit has no bound of its own. It stays in the list when
the list has a byte other than a blank in front of the hit. -/

namespace UBootV210.Environment

open Occurrence

/-- The hits from the right; each one ends where the one found before it begins, or
earlier. -/
def hitsFromRight (text name : List UInt8) : Nat → Option Nat → List Nat
  | 0, _ => []
  | fuel + 1, limit =>
      match reverseStrstr text name limit with
      | .ok (some hit) => hit :: hitsFromRight text name fuel (some hit)
      | _ => []

/-- Every hit that has only blanks in front of it comes after a hit that the search
accepts. -/
def Stopped (text name : List UInt8) (hits : List Nat) : Prop :=
  ∀ later hit earlier, hits = later ++ hit :: earlier → Blanks (text.take hit) →
    ∃ accepted ∈ later, AcceptedAt name [] text accepted

section

variable {text name : List UInt8}

theorem stopped_nil : Stopped text name [] := by
  intro later hit earlier shape
  exact absurd shape (by simp)

theorem stopped_cons {hit : Nat} : Stopped text name (hit :: hits) ↔
      ¬ Blanks (text.take hit) ∧ (AcceptedAt name [] text hit ∨ Stopped text name hits) := by
  constructor
  · intro stopped
    constructor
    · intro blanks
      obtain ⟨accepted, member, _⟩ := stopped [] hit hits rfl blanks
      cases member
    · by_cases here : AcceptedAt name [] text hit
      · exact .inl here
      · refine .inr fun later next earlier shape blanks => ?_
        obtain ⟨accepted, member, accepts⟩ :=
          stopped (hit :: later) next earlier (congrArg (hit :: ·) shape) blanks
        rcases List.mem_cons.mp member with same | member
        · exact absurd (same ▸ accepts) here
        · exact ⟨accepted, member, accepts⟩
  · intro both later next earlier shape blanks
    obtain ⟨visible, rest⟩ := both
    cases later with
    | nil =>
      cases shape
      exact absurd blanks visible
    | cons first later =>
      cases shape
      rcases rest with here | stopped
      · exact ⟨hit, List.mem_cons_self, here⟩
      · obtain ⟨accepted, member, accepts⟩ := stopped later next earlier rfl blanks
        exact ⟨accepted, List.mem_cons_of_mem _ member, accepts⟩

theorem skipBack_blanks (blanks : Blanks bytes) : skipBack bytes = .error .outOfBounds := by
  induction bytes with
  | nil => rfl
  | cons byte bytes induction =>
    rw [skipBack, if_pos (blanks byte List.mem_cons_self)]
    exact induction fun other member => blanks other (List.mem_cons_of_mem _ member)

theorem skipBack_visible (visible : ¬ Blanks bytes) :
    ∃ byte, skipBack bytes = .ok byte ∧ (bytes.dropWhile (· = blank)).head? = some byte := by
  induction bytes with
  | nil => exact absurd (by simp [Blanks]) visible
  | cons byte bytes induction =>
    by_cases isBlank : byte = blank
    · have rest : ¬ Blanks bytes := by
        intro blanks
        apply visible
        intro other member
        rcases List.mem_cons.mp member with same | member
        · exact same.trans isBlank
        · exact blanks other member
      rw [skipBack, if_pos isBlank, List.dropWhile_cons_of_pos (by simpa using isBlank)]
      exact induction rest
    · refine ⟨byte, by rw [skipBack, if_neg isBlank], ?_⟩
      rw [List.dropWhile_cons_of_neg (by simpa using isBlank)]
      rfl

theorem blanks_reverse : Blanks text.reverse ↔ Blanks text := by
  simp [Blanks]

theorem acceptedAt_iff (occurs : OccursAt name text position)
    (visible : ¬ Blanks (text.take position))
    (head : ((text.take position).reverse.dropWhile (· = blank)).head? = some prevch) :
    AcceptedAt name [] text position ↔
      (position = 0 ∨ prevch = comma) ∧ EndsName (text.drop (position + name.length)) := by
  have inside : text.take position ≠ [] := by
    intro none
    rw [none] at visible
    exact visible (by simp [Blanks])
  have nonzero : position ≠ 0 := by
    intro zero
    rw [zero] at inside
    exact inside rfl
  rw [AcceptedAt, StartsEntry, List.nil_append, head, and_iff_right occurs]
  simp [inside, nonzero]

theorem lookupLoop_returns_iff (nonempty : name ≠ []) {fuel : Nat} {limit hit : Option Nat}
    (found : reverseStrstr text name limit = .ok hit)
    (enough : ∀ position, hit = some position → position < fuel) :
    (∃ result, lookupLoop [] text name (fuel + 1) hit = .ok result) ↔
      Stopped text name (hitsFromRight text name fuel limit) := by
  induction fuel generalizing limit hit with
  | zero =>
    cases hit with
    | none => exact ⟨fun _ => stopped_nil, fun _ => ⟨none, rfl⟩⟩
    | some position => exact absurd (enough position rfl) (Nat.not_lt_zero _)
  | succ fuel induction =>
    rw [hitsFromRight, found]
    cases hit with
    | none => exact ⟨fun _ => stopped_nil, fun _ => ⟨none, rfl⟩⟩
    | some position =>
      dsimp only
      rw [stopped_cons, lookupLoop, List.nil_append]
      by_cases blanks : Blanks (text.take position)
      · rw [skipBack_blanks (blanks_reverse.mpr blanks)]
        constructor
        · intro returns
          obtain ⟨result, returned⟩ := returns
          cases returned
        · intro both
          exact absurd blanks both.1
      · obtain ⟨prevch, scanned, head⟩ :=
          skipBack_visible (fun reversed => blanks (blanks_reverse.mp reversed))
        obtain ⟨last, searched, isLast⟩ := @reverseStrstr_eq text name nonempty limit
        rw [found] at searched
        cases searched
        have accepts := acceptedAt_iff isLast.1.1 blanks head
        rw [scanned, Exec.ok_bind]
        dsimp only
        split
        case isTrue accepted =>
          exact ⟨fun _ => ⟨blanks, .inl (accepts.mpr accepted)⟩, fun _ => ⟨_, rfl⟩⟩
        case isFalse rejected =>
          obtain ⟨next, searched, lastNext⟩ :=
            @reverseStrstr_eq text name nonempty (some position)
          have bound := enough position rfl
          rw [searched, Exec.ok_bind, induction searched ?_, and_iff_right blanks,
            or_iff_right fun accepted => rejected (accepts.mp accepted)]
          intro earlier same
          rw [same] at lastNext
          have short := lastNext.1.2 position rfl
          have positive := List.length_pos_of_ne_nil nonempty
          omega

/-- With a readable byte in front of the list, an empty name is found at the beginning
of the list for ever. -/
theorem lookupLoop_empty_name {before : List UInt8} {guard : UInt8}
    (front : skipBack before.reverse = .ok guard) (continues : ¬ EndsName text) (fuel : Nat) :
    lookupLoop before text [] fuel (some 0) = .error .diverges := by
  induction fuel with
  | zero => rfl
  | succ fuel induction =>
    rw [lookupLoop, List.take_zero, List.append_nil, front]
    exact (if_neg fun both => continues both.2).trans induction

end

/-- The lookup returns and reads only the list exactly when the name is not empty and
every hit with only blanks in front of it comes after an exact match. -/
theorem lookup_inside_iff (attrList name : CString) :
    (∃ result, envAttrLookup [] (some attrList) name = .ok result) ↔ name.bytes ≠ [] ∧
        Stopped attrList.bytes name.bytes
          (hitsFromRight attrList.bytes name.bytes (attrList.length + 1) none) := by
  by_cases empty : name.bytes = []
  · constructor
    · rintro ⟨result, returned⟩
      rw [envAttrLookup, reverseStrstr, if_pos empty] at returned
      cases returned
    · intro both
      exact absurd empty both.1
  · obtain ⟨last, searched, isLast⟩ := @reverseStrstr_eq attrList.bytes name.bytes empty none
    have ends := @lookupLoop_returns_iff _ _ empty (attrList.length + 1) _ _ searched (by
      intro position same
      rw [same] at isLast
      have inside := isLast.1.1.inside empty
      change position < attrList.bytes.length + 1
      omega)
    rw [and_iff_right empty, ← ends]
    rw [envAttrLookup, searched, Exec.ok_bind]
    constructor
    · rintro ⟨result, returned⟩
      obtain ⟨entry, looked, _⟩ := Exec.bind_eq_ok_iff.mp returned
      exact ⟨entry, looked⟩
    · rintro ⟨entry, looked⟩
      rw [looked]
      cases entry with
      | none => exact ⟨_, rfl⟩
      | some entry => exact ⟨_, rfl⟩

example : ∃ result, envAttrLookup [] (some (.ofBytes [97, 58, 120, 44, 98, 58, 121]))
    (.ofBytes [98]) = .ok result := ⟨_, by rfl⟩

/-- A lookup of the first name of a list reads the byte in front of the list. A lookup
of the empty name does not end, whatever that byte is. -/
theorem lookup_leaves_list :
    envAttrLookup [] (some (.ofBytes [97, 58, 120])) (.ofBytes [97]) = .error .outOfBounds ∧
      ∀ guard : UInt8, guard ≠ blank → ∀ fuel,
        lookupLoop [guard] (CString.ofBytes [97, 58, 120]).bytes [] fuel (some 0) =
          .error .diverges := by
  constructor
  · decide
  · intro guard visible fuel
    apply @lookupLoop_empty_name _ [guard] guard
    · exact if_neg visible
    · decide

end UBootV210.Environment
