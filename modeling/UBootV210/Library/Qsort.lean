import Mathlib

/-! # The library sort

An embedding of `lib/qsort.c`, a Shell sort. Offsets count elements, and the
byte-wise exchange of two elements is one swap. -/

namespace UBootV210.Library

section

variable {Element : Type} (comp : Element → Element → Int)

/-- The innermost loop: the element at `j` moves down by steps of the gap until
the comparison is content. -/
def qsortSink (wgap : Nat) : Nat → Nat → Array Element → Array Element
  | 0, _, base => base
  | fuel + 1, j, base =>
      let j := j - wgap
      match base[j]?, base[j + wgap]? with
      | some a, some b =>
          if comp a b ≤ 0 then
            base
          else
            let base := base.swapIfInBounds j (j + wgap)
            if wgap ≤ j then qsortSink wgap fuel j base else base
      | _, _ => base

def qsortPass (wgap nel : Nat) : Nat → Nat → Array Element → Array Element
  | 0, _, base => base
  | fuel + 1, i, base =>
      let base := qsortSink comp wgap nel i base
      if i + 1 < nel then qsortPass wgap nel fuel (i + 1) base else base

def qsortPasses (nel : Nat) : Nat → Nat → Array Element → Array Element
  | 0, _, base => base
  | fuel + 1, wgap, base =>
      let base := qsortPass comp wgap nel nel wgap base
      let wgap := (wgap - 1) / 3
      if wgap ≠ 0 then qsortPasses nel fuel wgap base else base

end

/-- The first gap: one, four, thirteen, and so on. -/
def qsortGap (nel : Nat) : Nat → Nat → Nat
  | 0, wgap => wgap
  | fuel + 1, wgap =>
      let wgap := 3 * wgap + 1
      if wgap < (nel - 1) / 3 then qsortGap nel fuel wgap else wgap

def qsort {Element : Type} (comp : Element → Element → Int) (base : Array Element) :
    Array Element :=
  if 1 < base.size then
    qsortPasses comp base.size base.size (qsortGap base.size base.size 0) base
  else
    base

section

variable {Element : Type} (comp : Element → Element → Int)

theorem swapIfInBounds_perm (base : Array Element) (left right : Nat) :
    (base.swapIfInBounds left right).Perm base := by
  unfold Array.swapIfInBounds
  split
  · split
    · exact Array.swap_perm ..
    · exact .refl base
  · exact .refl base

theorem qsortSink_perm (wgap fuel j : Nat) (base : Array Element) :
    (qsortSink comp wgap fuel j base).Perm base := by
  induction fuel generalizing j base with
  | zero => exact .refl base
  | succ fuel induction =>
    rw [qsortSink]
    split
    · split
      · exact .refl base
      · split
        · exact (induction _ _).trans (swapIfInBounds_perm ..)
        · exact swapIfInBounds_perm ..
    · exact .refl base

theorem qsortPass_perm (wgap nel fuel i : Nat) (base : Array Element) :
    (qsortPass comp wgap nel fuel i base).Perm base := by
  induction fuel generalizing i base with
  | zero => exact .refl base
  | succ fuel induction =>
    have sunk := qsortSink_perm comp wgap nel i base
    rw [qsortPass]
    split
    · exact (induction _ _).trans sunk
    · exact sunk

theorem qsortPasses_perm (nel fuel wgap : Nat) (base : Array Element) :
    (qsortPasses comp nel fuel wgap base).Perm base := by
  induction fuel generalizing wgap base with
  | zero => exact .refl base
  | succ fuel induction =>
    have passed := qsortPass_perm comp wgap nel nel wgap base
    rw [qsortPasses]
    split
    · exact (induction _ _).trans passed
    · exact passed

theorem qsort_perm (base : Array Element) : (qsort comp base).Perm base := by
  unfold qsort
  split
  · exact qsortPasses_perm comp ..
  · exact .refl base

end

end UBootV210.Library
