import Mathlib

/-! # Trimming a list at both ends -/

namespace UBootV210.Trim

variable {Element : Type} (space : Element → Bool)

def trim (text : List Element) : List Element := (text.dropWhile space).rdropWhile space

def Tight (text : List Element) : Prop :=
  (∀ element, text.head? = some element → space element = false) ∧
    ∀ element, text.getLast? = some element → space element = false

variable {space}

theorem takeWhile_cut {body rest : List Element} (inside : ∀ element ∈ body, space element = true)
    (stops : ∀ element, rest.head? = some element → space element = false) :
    (body ++ rest).takeWhile space = body := by
  rw [List.takeWhile_append_of_pos inside]
  cases rest with
  | nil => exact List.append_nil body
  | cons element rest =>
    have outside : ¬ space element = true := by
      rw [stops element rfl]
      exact Bool.false_ne_true
    rw [List.takeWhile_cons_of_neg outside, List.append_nil]

theorem rdropWhile_append_of_all {text tail : List Element}
    (trailing : ∀ element ∈ tail, space element = true) :
    (text ++ tail).rdropWhile space = text.rdropWhile space := by
  rw [List.rdropWhile, List.reverse_append, List.dropWhile_append_of_pos, List.rdropWhile]
  intro element member
  exact trailing element (List.mem_reverse.mp member)

theorem Tight.trim_around {lead text tail : List Element} (tight : Tight space text)
    (leading : ∀ element ∈ lead, space element = true)
    (trailing : ∀ element ∈ tail, space element = true) :
    trim space (lead ++ (text ++ tail)) = text := by
  rw [trim, List.dropWhile_append_of_pos leading]
  cases text with
  | nil =>
    rw [List.nil_append, List.dropWhile_eq_nil_iff.mpr trailing, List.rdropWhile_nil]
  | cons element text =>
    have first : ¬ space element = true := by
      rw [tight.1 element rfl]
      exact Bool.false_ne_true
    rw [List.cons_append, List.dropWhile_cons_of_neg first, ← List.cons_append,
      rdropWhile_append_of_all trailing]
    apply List.rdropWhile_eq_self_iff.mpr
    intro nonempty isSpace
    have last := tight.2 _ (List.getLast?_eq_some_getLast nonempty)
    rw [isSpace] at last
    cases last

theorem mem_of_mem_trim (member : element ∈ trim space text) : element ∈ text :=
  (List.dropWhile_sublist _).subset ((List.rdropWhile_prefix _ _).subset member)

theorem trim_tight : Tight space (trim space text) := by
  constructor
  · intro element head
    have shortened : trim space text <+: text.dropWhile space := List.rdropWhile_prefix space _
    obtain ⟨rest, cut⟩ := shortened
    have first : (text.dropWhile space).head? = some element := by
      rw [← cut, List.head?_append, head]
      rfl
    have kept := List.head?_dropWhile_not space text
    rw [first] at kept
    simpa using kept
  · intro element last
    have nonempty : trim space text ≠ [] := by
      intro empty
      rw [empty] at last
      cases last
    have stops := List.rdropWhile_last_not space (text.dropWhile space) nonempty
    rw [List.getLast?_eq_some_getLast nonempty] at last
    cases last
    exact Bool.eq_false_iff.mpr stops

theorem trim_eq_self_iff (text : List Element) : trim space text = text ↔ Tight space text := by
  constructor
  · intro same
    rw [← same]
    exact trim_tight
  · intro tight
    have around := @Tight.trim_around _ _ [] text [] tight (by simp) (by simp)
    rwa [List.append_nil, List.nil_append] at around

theorem trim_cut (text : List Element) : ∃ lead tail, text = lead ++ (trim space text ++ tail) ∧
      (∀ element ∈ lead, space element = true) ∧ ∀ element ∈ tail, space element = true := by
  refine ⟨text.takeWhile space, (text.dropWhile space).rtakeWhile space, ?_,
    fun element member => List.mem_takeWhile_imp member,
    fun element member => List.mem_rtakeWhile_imp member⟩
  rw [trim, List.rdropWhile_append_rtakeWhile, List.takeWhile_append_dropWhile]

end UBootV210.Trim
