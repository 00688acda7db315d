import Mathlib.Data.List.TakeWhile

/-! # Lists in the order of a key

A new element is put before the first one whose key is not smaller. Elements with the same
key therefore come out in the order opposite to the one in which they were put in. -/

namespace UBootV210.KeyOrder

variable {Element : Type} (key : Element → Nat)

def Ordered (list : List Element) : Prop := list.Pairwise fun left right => key left ≤ key right

def smaller (new : Element) (list : List Element) : List Element :=
  list.takeWhile fun other => key other < key new

def others (new : Element) (list : List Element) : List Element :=
  list.dropWhile fun other => key other < key new

def insertBefore (new : Element) (list : List Element) : List Element :=
  smaller key new list ++ new :: others key new list

variable {key} {new : Element} {list : List Element}

theorem smaller_append_others : smaller key new list ++ others key new list = list :=
  List.takeWhile_append_dropWhile

theorem lt_of_mem_smaller (member : other ∈ smaller key new list) : key other < key new := by
  have holds := List.mem_takeWhile_imp member
  exact of_decide_eq_true holds

theorem Ordered.le_of_mem_others (ordered : Ordered key list)
    (member : other ∈ others key new list) : key new ≤ key other := by
  induction list with
  | nil => cases member
  | cons first rest induction =>
    rw [others, List.dropWhile_cons] at member
    split at member
    · exact induction (List.pairwise_cons.mp ordered).2 member
    case isFalse stops =>
      have large : key new ≤ key first := by
        rw [decide_eq_true_eq] at stops
        omega
      rcases List.mem_cons.mp member with same | later
      · rw [same]
        exact large
      · exact large.trans ((List.pairwise_cons.mp ordered).1 other later)

theorem Ordered.insertBefore (ordered : Ordered key list) :
    Ordered key (insertBefore key new list) := by
  apply List.pairwise_append.mpr
  refine ⟨ordered.sublist (List.takeWhile_sublist _), List.pairwise_cons.mpr ⟨?_, ?_⟩, ?_⟩
  · intro other member
    exact ordered.le_of_mem_others member
  · exact ordered.sublist (List.dropWhile_sublist _)
  · intro left leftMember right rightMember
    have below := lt_of_mem_smaller leftMember
    rcases List.mem_cons.mp rightMember with same | later
    · rw [same]
      exact below.le
    · have above := ordered.le_of_mem_others later
      omega

/-- Among the elements with its key the new one is the first. -/
theorem filter_insertBefore : (KeyOrder.insertBefore key new list).filter (key · = value) =
      if key new = value then new :: list.filter (key · = value)
      else list.filter (key · = value) := by
  have split : list.filter (key · = value) = (smaller key new list).filter (key · = value) ++
        (others key new list).filter (key · = value) := by
    rw [← List.filter_append, smaller_append_others]
  rw [KeyOrder.insertBefore, List.filter_append, List.filter_cons]
  split
  case isTrue same =>
    have equal : key new = value := of_decide_eq_true same
    have none : (smaller key new list).filter (key · = value) = [] := by
      apply List.filter_eq_nil_iff.mpr
      intro other member
      have below := lt_of_mem_smaller member
      simp only [decide_eq_true_eq]
      omega
    rw [if_pos equal, split, none, List.nil_append, List.nil_append]
  case isFalse different =>
    have unequal : key new ≠ value := fun equal => different (decide_eq_true equal)
    rw [if_neg unequal, split]

/-- A list in the order of its keys is known from the elements with each key. -/
theorem Ordered.ext (leftOrdered : Ordered key left) (rightOrdered : Ordered key right)
    (same : ∀ value, left.filter (key · = value) = right.filter (key · = value)) :
    left = right := by
  induction left generalizing right with
  | nil =>
    cases right with
    | nil => rfl
    | cons first rest =>
      have wrong := same (key first)
      rw [List.filter_cons_of_pos (by simp)] at wrong
      cases wrong
  | cons first rest induction =>
    have member : ∀ {one two : List Element} {element : Element},
        (∀ value, one.filter (key · = value) = two.filter (key · = value)) →
        element ∈ one → element ∈ two := by
      intro one two element equal inside
      have filtered : element ∈ one.filter (key · = key element) :=
        List.mem_filter.mpr ⟨inside, by simp⟩
      rw [equal] at filtered
      exact (List.mem_filter.mp filtered).1
    cases right with
    | nil => exact absurd (member same List.mem_cons_self) List.not_mem_nil
    | cons other others =>
      -- The first elements have the smallest key of both lists.
      have keys : key first = key other := by
        apply Nat.le_antisymm
        · cases List.mem_cons.mp (member (fun value => (same value).symm)
            (List.mem_cons_self (a := other) (l := others))) with
          | inl equal => rw [equal]
          | inr later => exact (List.pairwise_cons.mp leftOrdered).1 other later
        · cases List.mem_cons.mp (member same (List.mem_cons_self (a := first) (l := rest))) with
          | inl equal => rw [equal]
          | inr later => exact (List.pairwise_cons.mp rightOrdered).1 first later
      have heads := same (key first)
      rw [List.filter_cons_of_pos (by simp), List.filter_cons_of_pos (by simp [keys])] at heads
      have equal : first = other := (List.cons.inj heads).1
      subst equal
      congr 1
      apply induction (List.pairwise_cons.mp leftOrdered).2 (List.pairwise_cons.mp rightOrdered).2
      intro value
      have filtered := same value
      rw [List.filter_cons, List.filter_cons] at filtered
      split at filtered
      · exact (List.cons.inj filtered).2
      · exact filtered

variable (key) in
/-- The elements are put one by one into a list that starts with `before`. -/
def reinsert (before : List Element) (list : List Element) : List Element :=
  list.foldl (fun done new => insertBefore key new done) before

theorem Ordered.reinsert (ordered : Ordered key before) :
    Ordered key (reinsert key before list) := by
  induction list generalizing before with
  | nil => exact ordered
  | cons new list induction => exact induction ordered.insertBefore

theorem filter_reinsert {before : List Element} (value : Nat) :
    (reinsert key before list).filter (key · = value) =
      (list.filter (key · = value)).reverse ++ before.filter (key · = value) := by
  induction list generalizing before with
  | nil => rfl
  | cons new list induction =>
    change (KeyOrder.reinsert key (KeyOrder.insertBefore key new before) list).filter _ = _
    rw [induction, filter_insertBefore, List.filter_cons]
    simp only [decide_eq_true_eq]
    split
    · rw [List.reverse_cons, List.append_assoc, List.singleton_append]
    · rfl

/-- A list stays as it is if the elements with each key read the same backwards. -/
theorem reinsert_eq_self_iff (ordered : Ordered key list) : reinsert key [] list = list ↔
      ∀ value, (list.filter (key · = value)).reverse = list.filter (key · = value) := by
  have empty : Ordered key ([] : List Element) := List.Pairwise.nil
  constructor
  · intro equal value
    have filtered := @filter_reinsert _ key list [] value
    rw [equal, List.filter_nil, List.append_nil] at filtered
    exact filtered.symm
  · intro palindromes
    apply empty.reinsert.ext ordered
    intro value
    rw [filter_reinsert, List.filter_nil, List.append_nil, palindromes]

end UBootV210.KeyOrder
