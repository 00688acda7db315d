import Mathlib

/-! # Runs of labelled transition systems

A system is a relation between a state, the label of a step and the next
state. Functions are used as systems through their graph. -/

namespace UBootV210

/-- A finite run with the labels of its steps in order. -/
inductive Run {State Label : Type*} (step : State → Label → State → Prop) :
    State → List Label → State → Prop
  | nil (state : State) : Run step state [] state
  | cons {first middle last : State} {label : Label} {labels : List Label} :
      step first label middle → Run step middle labels last →
      Run step first (label :: labels) last

namespace Run

variable {State Label : Type*} {step : State → Label → State → Prop}

/-- A property that every step keeps holds at the end of every run. -/
theorem invariant {holds : State → Prop}
    (preserved : ∀ {first label next}, step first label next → holds first → holds next)
    {first last : State} {labels : List Label}
    (run : Run step first labels last) (initially : holds first) : holds last := by
  induction run with
  | nil => exact initially
  | cons head _ induction => exact induction (preserved head initially)

theorem append (head : Run step first before middle) (tail : Run step middle after last) :
    Run step first (before ++ after) last := by
  induction head with
  | nil => exact tail
  | cons step _ induction => exact .cons step (induction tail)

theorem split (run : Run step first (before ++ after) last) :
    ∃ middle, Run step first before middle ∧ Run step middle after last := by
  induction before generalizing first with
  | nil => exact ⟨first, .nil first, run⟩
  | cons label before induction =>
    cases run with
    | cons head tail =>
      obtain ⟨middle, front, back⟩ := induction tail
      exact ⟨middle, .cons head front, back⟩

theorem of_labels {guard : Label → Prop} {first last : State}
    (run : Run step first labels last) (guarded : ∀ label ∈ labels, guard label) :
    Run (fun first label next => step first label next ∧ guard label) first labels last := by
  induction run with
  | nil => exact .nil _
  | cons head _ induction =>
    exact .cons ⟨head, guarded _ List.mem_cons_self⟩
      (induction fun label member => guarded label (List.mem_cons_of_mem _ member))

theorem of_foldlM {Error : Type*} {next : State → Label → Except Error State}
    (executed : labels.foldlM next first = .ok last) :
    Run (fun first label last => next first label = .ok last) first labels last := by
  induction labels generalizing first with
  | nil =>
    cases executed
    exact .nil _
  | cons label labels induction =>
    rw [List.foldlM_cons] at executed
    cases stepped : next first label with
    | error fault =>
      rw [stepped] at executed
      cases executed
    | ok middle =>
      rw [stepped] at executed
      exact .cons stepped (induction executed)

theorem mono (included : ∀ {first label next}, step first label next → wider first label next)
    (run : Run step first labels last) : Run wider first labels last := by
  induction run with
  | nil => exact .nil _
  | cons head _ induction => exact .cons (included head) induction

end Run

end UBootV210
