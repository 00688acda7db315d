import Mathlib

/-! # Open addressing with tombstones

An abstract hash table: a finite set of cells, a probe sequence for every key,
and the invariant under which a search may give up at the first free cell. -/

namespace UBootV210

/-- One cell of an open addressing table. A deleted cell is a tombstone: it
holds nothing, but searches continue past it. -/
inductive Cell (Key Value : Type)
  | free
  | deleted
  | live (key : Key) (value : Value)

namespace Cell

variable {Key Value : Type}

def isLive : Cell Key Value → Bool
  | live _ _ => true
  | _ => false

def key : Cell Key Value → Option Key
  | live key _ => some key
  | _ => none

@[simp] theorem key_live (key : Key) : (live key value).key = some key := rfl

theorem isLive_iff : cell.isLive = true ↔ ∃ key value, cell = live key value := by
  cases cell <;> simp [isLive]

@[simp] theorem isLive_live (key : Key) : (live key value).isLive = true := rfl

@[simp] theorem isLive_free : (free : Cell Key Value).isLive = false := rfl

@[simp] theorem isLive_deleted : (deleted : Cell Key Value).isLive = false := rfl

end Cell

/-- A probing scheme: every key enumerates the index set without repetition. -/
structure Probing (Key : Type) where
  size : Nat
  indices : Finset Nat
  probe : Key → Nat → Nat
  probe_mem : ∀ key count, probe key count ∈ indices
  probe_injOn : ∀ key {left right}, left < size → right < size →
    probe key left = probe key right → left = right
  exists_probe : ∀ key {index}, index ∈ indices → ∃ count < size, probe key count = index

namespace OpenAddressing

variable {Key Value : Type} (probing : Probing Key)

abbrev Cells (Key Value : Type) := Nat → Cell Key Value

def Stores (cells : Cells Key Value) (key : Key) (value : Value) : Prop :=
  ∃ index ∈ probing.indices, cells index = .live key value

def Absent (cells : Cells Key Value) (key : Key) : Prop :=
  ∀ index ∈ probing.indices, ∀ value, cells index ≠ .live key value

def liveIndices (cells : Cells Key Value) : Finset Nat :=
  probing.indices.filter fun index => (cells index).isLive

/-- The invariant of an open addressing table: a key occurs once, and no free
cell comes before it on its probe sequence. -/
structure Valid (cells : Cells Key Value) : Prop where
  unique : ∀ {left right key value other}, left ∈ probing.indices →
    right ∈ probing.indices → cells left = .live key value →
    cells right = .live key other → left = right
  reachable : ∀ {key value count}, count < probing.size →
    cells (probing.probe key count) = .live key value →
    ∀ earlier < count, cells (probing.probe key earlier) ≠ .free

variable {probing} {cells : Cells Key Value}

theorem absent_iff : Absent probing cells key ↔ ∀ value, ¬ Stores probing cells key value := by
  constructor
  · intro absent value ⟨index, member, holds⟩
    exact absent index member value holds
  · intro none index member value holds
    exact none value ⟨index, member, holds⟩

theorem valid_of_forall_not_live (dead : ∀ index, (cells index).isLive = false) :
    Valid probing cells where
  unique := by
    intro left _ key value _ _ _ holds
    have live := dead left
    simp [holds] at live
  reachable := by
    intro key value count _ holds
    have live := dead (probing.probe key count)
    simp [holds] at live

section

variable {index : Nat} {key : Key} {value : Value}

theorem update_eq_iff : Function.update cells index cell position = wanted ↔
      (position = index ∧ cell = wanted) ∨ (position ≠ index ∧ cells position = wanted) := by
  by_cases same : position = index
  · subst same
    simp
  · simp [same]

/-- Storing an absent key in a cell that is not live, reached without passing
a free cell. -/
theorem Valid.store (valid : Valid probing cells) (absent : Absent probing cells key)
    {count : Nat} (inside : count < probing.size)
    (reached : probing.probe key count = index)
    (passed : ∀ earlier < count, cells (probing.probe key earlier) ≠ .free) :
    Valid probing (Function.update cells index (.live key value)) := by
  constructor
  · intro left right shared leftValue rightValue leftMem rightMem leftHolds rightHolds
    rcases update_eq_iff.mp leftHolds with ⟨leftEq, leftNew⟩ | ⟨leftNe, leftOld⟩
    · cases leftNew
      rcases update_eq_iff.mp rightHolds with ⟨rightEq, _⟩ | ⟨_, rightOld⟩
      · exact leftEq.trans rightEq.symm
      · exact absurd rightOld (absent right rightMem _)
    · rcases update_eq_iff.mp rightHolds with ⟨_, rightNew⟩ | ⟨_, rightOld⟩
      · cases rightNew
        exact absurd leftOld (absent left leftMem _)
      · exact valid.unique leftMem rightMem leftOld rightOld
  · intro shared stored steps stepsLt holds earlier earlierLt isFree
    rcases update_eq_iff.mp isFree with ⟨_, freeNew⟩ | ⟨_, freeOld⟩
    · cases freeNew
    · rcases update_eq_iff.mp holds with ⟨atIndex, heldNew⟩ | ⟨_, heldOld⟩
      · cases heldNew
        have sameCount : steps = count :=
          probing.probe_injOn key stepsLt inside (atIndex.trans reached.symm)
        subst sameCount
        exact passed earlier earlierLt freeOld
      · exact valid.reachable stepsLt heldOld earlier earlierLt freeOld

/-- An update that stores no new key and frees no cell keeps the invariant. -/
theorem Valid.update_of_known (valid : Valid probing cells) (notFree : cell ≠ .free)
    (known : ∀ shared stored, cell = .live shared stored →
      ∃ original, cells index = .live shared original) :
    Valid probing (Function.update cells index cell) := by
  -- Every live cell held its key before the update as well.
  have before : ∀ {position shared stored},
      Function.update cells index cell position = .live shared stored →
      ∃ original, cells position = .live shared original := by
    intro position shared stored updated
    rcases update_eq_iff.mp updated with ⟨same, isNew⟩ | ⟨_, isOld⟩
    · subst same
      exact known shared stored isNew
    · exact ⟨stored, isOld⟩
  constructor
  · intro left right shared leftValue rightValue leftMem rightMem leftHolds rightHolds
    obtain ⟨_, leftBefore⟩ := before leftHolds
    obtain ⟨_, rightBefore⟩ := before rightHolds
    exact valid.unique leftMem rightMem leftBefore rightBefore
  · intro shared stored steps stepsLt updated earlier earlierLt isFree
    obtain ⟨_, heldBefore⟩ := before updated
    rcases update_eq_iff.mp isFree with ⟨_, freeNew⟩ | ⟨_, freeOld⟩
    · exact notFree freeNew
    · exact valid.reachable stepsLt heldBefore earlier earlierLt freeOld

theorem Valid.replace (valid : Valid probing cells) (holds : cells index = .live key old) :
    Valid probing (Function.update cells index (.live key value)) := by
  apply valid.update_of_known (by simp)
  intro shared stored equal
  cases equal
  exact ⟨old, holds⟩

theorem Valid.bury (valid : Valid probing cells) :
    Valid probing (Function.update cells index .deleted) := by
  apply valid.update_of_known (by simp)
  intro shared stored equal
  cases equal

/-! ## Contents after an update -/

theorem stores_update_iff (member : index ∈ probing.indices) :
    Stores probing (Function.update cells index cell) other stored ↔ cell = .live other stored ∨
        ∃ position ∈ probing.indices, position ≠ index ∧ cells position = .live other stored := by
  constructor
  · rintro ⟨position, positionMem, updated⟩
    rcases update_eq_iff.mp updated with ⟨_, isNew⟩ | ⟨ne, isOld⟩
    · exact .inl isNew
    · exact .inr ⟨position, positionMem, ne, isOld⟩
  · rintro (isNew | ⟨position, positionMem, ne, isOld⟩)
    · exact ⟨index, member, update_eq_iff.mpr (.inl ⟨rfl, isNew⟩)⟩
    · exact ⟨position, positionMem, update_eq_iff.mpr (.inr ⟨ne, isOld⟩)⟩

private theorem stores_elsewhere_of_dead (notLive : (cells index).isLive = false) :
    (∃ position ∈ probing.indices, position ≠ index ∧
        cells position = .live other stored) ↔ Stores probing cells other stored := by
  constructor
  · rintro ⟨position, positionMem, _, holds⟩
    exact ⟨position, positionMem, holds⟩
  · rintro ⟨position, positionMem, holds⟩
    refine ⟨position, positionMem, ?_, holds⟩
    rintro rfl
    simp [holds] at notLive

private theorem stores_elsewhere_of_holds (valid : Valid probing cells)
    (member : index ∈ probing.indices) (held : cells index = .live key old)
    :
    (∃ position ∈ probing.indices, position ≠ index ∧ cells position = .live other stored) ↔
      other ≠ key ∧ Stores probing cells other stored := by
  constructor
  · rintro ⟨position, positionMem, ne, holds⟩
    refine ⟨?_, position, positionMem, holds⟩
    rintro rfl
    exact ne (valid.unique positionMem member holds held)
  · rintro ⟨different, position, positionMem, holds⟩
    refine ⟨position, positionMem, ?_, holds⟩
    rintro rfl
    cases held.symm.trans holds
    exact different rfl

theorem stores_store_iff (member : index ∈ probing.indices)
    (notLive : (cells index).isLive = false) :
    Stores probing (Function.update cells index (.live key value)) other stored ↔
      (key = other ∧ value = stored) ∨ Stores probing cells other stored := by
  rw [stores_update_iff member, stores_elsewhere_of_dead notLive, Cell.live.injEq]

theorem stores_replace_iff (valid : Valid probing cells)
    (member : index ∈ probing.indices) (held : cells index = .live key old)
    :
    Stores probing (Function.update cells index (.live key value)) other stored ↔
      (key = other ∧ value = stored) ∨ (other ≠ key ∧ Stores probing cells other stored) := by
  rw [stores_update_iff member, stores_elsewhere_of_holds valid member held, Cell.live.injEq]

theorem stores_bury_iff (valid : Valid probing cells)
    (member : index ∈ probing.indices) (held : cells index = .live key old)
    :
    Stores probing (Function.update cells index .deleted) other stored ↔
      other ≠ key ∧ Stores probing cells other stored := by
  rw [stores_update_iff member, stores_elsewhere_of_holds valid member held]
  simp

section

variable (member : index ∈ probing.indices)
include member

theorem stores_bury_dead_iff (notLive : (cells index).isLive = false) :
    Stores probing (Function.update cells index .deleted) other stored ↔
      Stores probing cells other stored := by
  rw [stores_update_iff member, stores_elsewhere_of_dead notLive]
  simp

theorem liveIndices_update : liveIndices probing (Function.update cells index cell) =
      if cell.isLive then insert index (liveIndices probing cells)
      else (liveIndices probing cells).erase index := by
  ext position
  by_cases same : position = index
  · subst same
    cases live : cell.isLive <;> simp [liveIndices, live, member]
  · cases live : cell.isLive <;>
      simp [liveIndices, same]

theorem card_liveIndices_store (notLive : (cells index).isLive = false) :
    (liveIndices probing (Function.update cells index (.live key value))).card =
      (liveIndices probing cells).card + 1 := by
  rw [liveIndices_update member]
  apply Finset.card_insert_of_notMem
  simp [liveIndices, notLive]

theorem card_liveIndices_replace (live : (cells index).isLive = true) :
    (liveIndices probing (Function.update cells index (.live key value))).card =
      (liveIndices probing cells).card := by
  rw [liveIndices_update member, Cell.isLive_live, if_pos rfl, Finset.insert_eq_of_mem]
  simp [liveIndices, live, member]

theorem card_liveIndices_bury (live : (cells index).isLive = true) :
    (liveIndices probing (Function.update cells index .deleted)).card + 1 =
      (liveIndices probing cells).card := by
  rw [liveIndices_update member]
  apply Finset.card_erase_add_one
  simp [liveIndices, live, member]

end

/-- A valid table has as many live cells as stored keys. -/
theorem ncard_stored (valid : Valid probing cells) :
    Set.ncard {key | ∃ value, Stores probing cells key value} =
      (liveIndices probing cells).card := by
  have image : some '' {key | ∃ value, Stores probing cells key value} =
      (fun position => (cells position).key) '' (liveIndices probing cells : Set Nat) := by
    ext stored
    constructor
    · rintro ⟨key, ⟨value, position, positionMem, held⟩, rfl⟩
      exact ⟨position, by simp [liveIndices, positionMem, held], by simp [held]⟩
    · rintro ⟨position, live, rfl⟩
      obtain ⟨positionMem, isLive⟩ := Finset.mem_filter.mp live
      obtain ⟨key, value, held⟩ := Cell.isLive_iff.mp isLive
      exact ⟨key, ⟨value, position, positionMem, held⟩, by simp [held]⟩
  have injective : Set.InjOn (fun position => (cells position).key)
      (liveIndices probing cells : Set Nat) := by
    intro left leftLive right rightLive equal
    obtain ⟨leftMem, isLeft⟩ := Finset.mem_filter.mp leftLive
    obtain ⟨rightMem, isRight⟩ := Finset.mem_filter.mp rightLive
    obtain ⟨leftKey, leftValue, leftHeld⟩ := Cell.isLive_iff.mp isLeft
    obtain ⟨rightKey, rightValue, rightHeld⟩ := Cell.isLive_iff.mp isRight
    simp only [leftHeld, rightHeld, Cell.key_live, Option.some.injEq] at equal
    subst equal
    exact valid.unique leftMem rightMem leftHeld rightHeld
  rw [← Set.ncard_image_of_injective _ (Option.some_injective Key), image,
    injective.ncard_image, Set.ncard_coe_finset]

end

end OpenAddressing

end UBootV210
