import Mathlib

/-! # Lists of separated intervals

Regions with a first address and an end address, in a list that is sorted and
leaves a gap between any two of them. -/

namespace UBootV210.Intervals

variable {Region Address : Type*} [LinearOrder Address] (start stop : Region → Address)

def Covers (regions : List Region) (address : Address) : Prop :=
  ∃ region ∈ regions, start region ≤ address ∧ address < stop region

def Separated (regions : List Region) : Prop :=
  regions.Pairwise fun left right => stop left < start right

variable {start stop}

@[simp] theorem covers_nil : Covers start stop [] address ↔ False := by
  simp [Covers]

@[simp] theorem covers_cons :
    Covers start stop (region :: regions) address ↔
      start region ≤ address ∧ address < stop region ∨ Covers start stop regions address := by
  simp [Covers]

@[simp] theorem covers_append :
    Covers start stop (left ++ right) address ↔
      Covers start stop left address ∨ Covers start stop right address := by
  simp only [Covers, List.mem_append]
  constructor
  · rintro ⟨region, member | member, inside⟩
    · exact .inl ⟨region, member, inside⟩
    · exact .inr ⟨region, member, inside⟩
  · rintro (⟨region, member, inside⟩ | ⟨region, member, inside⟩)
    · exact ⟨region, .inl member, inside⟩
    · exact ⟨region, .inr member, inside⟩

variable {before after : List Region} {region : Region} {address : Address}

theorem covers_replace (same : start other ≤ address ∧ address < stop other ↔
      (start region ≤ address ∧ address < stop region) ∨ added) :
    Covers start stop (before ++ other :: after) address ↔
      Covers start stop (before ++ region :: after) address ∨ added := by
  simp only [covers_append, covers_cons, same]
  tauto

theorem covers_insert : Covers start stop (before ++ region :: after) address ↔
      Covers start stop (before ++ after) address ∨
        (start region ≤ address ∧ address < stop region) := by
  simp only [covers_append, covers_cons]
  tauto

theorem pairwise_cut : (before ++ region :: after).Pairwise R ↔
      (before ++ after).Pairwise R ∧ (∀ left ∈ before, R left region) ∧
        ∀ right ∈ after, R region right := by
  simp only [List.pairwise_append, List.pairwise_cons, List.forall_mem_cons]
  constructor
  · rintro ⟨ordered, ⟨above, later⟩, apart⟩
    exact ⟨⟨ordered, later, fun left member => (apart left member).2⟩,
      fun left member => (apart left member).1, above⟩
  · rintro ⟨⟨ordered, later, apart⟩, below, above⟩
    exact ⟨ordered, ⟨above, later⟩, fun left member => ⟨below left member, apart left member⟩⟩

theorem separated_cut : Separated start stop (before ++ region :: after) ↔
      Separated start stop (before ++ after) ∧ (∀ left ∈ before, stop left < start region) ∧
        ∀ right ∈ after, stop region < start right :=
  pairwise_cut

theorem pairwise_parts (ordered : (before ++ region :: after).Pairwise R)
    (inOrder : parts.Pairwise R) (below : ∀ part ∈ parts, ∀ left, R left region → R left part)
    (above : ∀ part ∈ parts, ∀ right, R region right → R part right) :
    (before ++ (parts ++ after)).Pairwise R := by
  obtain ⟨others, lower, upper⟩ := pairwise_cut.mp ordered
  simp only [List.pairwise_append, List.mem_append] at others ⊢
  refine ⟨others.1, ⟨inOrder, others.2.1, fun part member right later => ?_⟩, ?_⟩
  · exact above part member right (upper right later)
  · rintro left earlier right (member | later)
    · exact below right member left (lower left earlier)
    · exact others.2.2 left earlier right later

theorem Separated.not_covers (separated : Separated start stop (before ++ region :: after))
    (lower : start region ≤ address) (upper : address < stop region) :
    ¬ Covers start stop (before ++ after) address := by
  obtain ⟨_, below, above⟩ := separated_cut.mp separated
  rw [covers_append]
  rintro (⟨left, member, _, inside⟩ | ⟨right, member, inside, _⟩)
  · exact absurd inside (not_lt.mpr ((below left member).le.trans lower))
  · exact absurd inside (not_le.mpr (upper.trans (above right member)))

variable {regions : List Region}

theorem Separated.not_covers_stop (separated : Separated start stop regions)
    (member : region ∈ regions) (proper : start region < stop region) :
    ¬ Covers start stop regions (stop region) := by
  obtain ⟨before, after, rfl⟩ := List.append_of_mem member
  obtain ⟨_, below, above⟩ := separated_cut.mp separated
  rw [covers_append, covers_cons]
  rintro (⟨left, leftMember, _, inside⟩ | here | ⟨right, rightMember, inside, _⟩)
  · exact absurd inside (not_lt.mpr ((below left leftMember).trans proper).le)
  · exact absurd here.2 (lt_irrefl _)
  · exact absurd inside (not_le.mpr (above right rightMember))

theorem Separated.covers_parts (separated : Separated start stop (before ++ region :: after))
    (inside : removed → start region ≤ address ∧ address < stop region)
    (same : Covers start stop parts address ↔
      (start region ≤ address ∧ address < stop region) ∧ ¬ removed) :
    Covers start stop (before ++ (parts ++ after)) address ↔
      Covers start stop (before ++ region :: after) address ∧ ¬ removed := by
  have others : removed → ¬ Covers start stop (before ++ after) address :=
    fun taken => separated.not_covers (inside taken).1 (inside taken).2
  simp only [covers_append, covers_cons] at others ⊢
  rw [same]
  tauto

end UBootV210.Intervals
