import Mathlib.Data.List.Induction
import Mathlib.Data.Nat.Basic
import Mathlib.Logic.Function.Iterate

/-! # The command history

The ring of lines of common/main.c. One of its slots separates the oldest line from the
next one to be stored. -/

namespace UBootV210.Console

abbrev Line := List UInt8

def HIST_MAX : Nat := 20

structure History where
  histMax : Nat
  addIdx : Nat
  cur : Int
  list : Nat → Line

def histInit : History := ⟨0, 0, -1, fun _ => []⟩

def creadAddToHist (line : Line) (history : History) : History :=
  let addIdx := if history.addIdx + 1 ≥ HIST_MAX then 0 else history.addIdx + 1
  { history with
    list := Function.update history.list history.addIdx line
    addIdx := addIdx
    histMax := if addIdx > history.histMax then addIdx else history.histMax }

def histPrev (history : History) : Option Line × History :=
  if history.cur < 0 then (none, history)
  else
    let cur := if history.cur - 1 < 0 then (history.histMax : Int) else history.cur - 1
    if cur = history.addIdx then (none, history)
    else (some (history.list cur.toNat), { history with cur := cur })

def histNext (history : History) : Option Line × History :=
  if history.cur < 0 then (none, history)
  else if history.cur = history.addIdx then (none, history)
  else
    let cur := if history.cur + 1 > history.histMax then 0 else history.cur + 1
    if cur = history.addIdx then (some [], { history with cur := cur })
    else (some (history.list cur.toNat), { history with cur := cur })

/-- What `cread_line` does when a line is complete. -/
def enterLine (history : History) (line : Line) : History :=
  let added := creadAddToHist line history
  { added with cur := added.addIdx }

def entered (lines : List Line) : History := lines.foldl enterLine histInit

def previous (count : Nat) (history : History) : History :=
  (fun history => (histPrev history).2)^[count] history

/-! ## The ring -/

structure Holds (lines : List Line) (history : History) : Prop where
  addIdx : history.addIdx = lines.length % 20
  histMax : history.histMax = min lines.length 19
  slot : ∀ index line, lines[index]? = some line → lines.length ≤ index + 20 →
    history.list (index % 20) = line

theorem holds_entered (lines : List Line) : Holds lines (entered lines) := by
  induction lines using List.reverseRecOn with
  | nil => exact ⟨rfl, rfl, by simp⟩
  | append_singleton lines line induction =>
    have addIdx := induction.addIdx
    have histMax := induction.histMax
    rw [entered, List.foldl_append]
    change Holds _ (enterLine (entered lines) line)
    have next : (enterLine (entered lines) line).addIdx = (lines.length + 1) % 20 := by
      simp only [enterLine, creadAddToHist, HIST_MAX, addIdx]
      split <;> omega
    refine ⟨by rw [next, List.length_append, List.length_singleton], ?_, ?_⟩
    · simp only [enterLine, creadAddToHist, HIST_MAX, addIdx, histMax, List.length_append,
        List.length_singleton]
      split <;> split <;> omega
    · intro index stored found recent
      rw [List.length_append, List.length_singleton] at recent
      simp only [enterLine, creadAddToHist, addIdx]
      by_cases last : index = lines.length
      · rw [last, List.getElem?_append_right le_rfl, Nat.sub_self] at found
        rw [last, Function.update_self]
        exact Option.some.inj found
      · have earlier : index < lines.length := by
          have inside := (List.getElem?_eq_some_iff.mp found).1
          rw [List.length_append, List.length_singleton] at inside
          omega
        rw [List.getElem?_append_left earlier] at found
        rw [Function.update_of_ne (by omega)]
        exact induction.slot index stored found (by omega)

theorem cur_entered (some : lines ≠ []) :
    (entered lines).cur = ((lines.length % 20 : Nat) : Int) := by
  rcases List.eq_nil_or_concat lines with rfl | ⟨front, line, rfl⟩
  · exact absurd rfl some
  · rw [← (holds_entered _).addIdx, entered, List.concat_eq_append, List.foldl_append]
    rfl

section

variable {lines : List Line} {count : Nat}

def back (lines : List Line) (count : Nat) : History :=
  { entered lines with cur := ((lines.length - count) % 20 : Nat) }

theorem histPrev_back (less : count < min lines.length 19) :
    histPrev (back lines count) = (lines.reverse[count]?, back lines (count + 1)) := by
  have holds := holds_entered lines
  have place : (if ((((lines.length - count) % 20 : Nat) : Int)) - 1 < 0 then
      ((min lines.length 19 : Nat) : Int) else (((lines.length - count) % 20 : Nat) : Int) - 1) =
      (((lines.length - (count + 1)) % 20 : Nat) : Int) := by
    split <;> omega
  have inside : lines.length - 1 - count < lines.length := by omega
  have line := holds.slot (lines.length - (count + 1)) lines[lines.length - 1 - count]
    (by rw [Nat.sub_add_eq, Nat.sub_right_comm, List.getElem?_eq_getElem inside]) (by omega)
  rw [List.getElem?_reverse (by omega), List.getElem?_eq_getElem inside]
  simp only [histPrev, back, holds.histMax, holds.addIdx, place]
  rw [if_neg (by omega), if_neg (by omega), Int.toNat_natCast, line]

theorem histPrev_last :
    histPrev (back lines (min lines.length 19)) = (none, back lines (min lines.length 19)) := by
  have holds := holds_entered lines
  have place : (if (((lines.length - min lines.length 19) % 20 : Nat) : Int) - 1 < 0 then
      ((min lines.length 19 : Nat) : Int)
      else (((lines.length - min lines.length 19) % 20 : Nat) : Int) - 1) =
      ((lines.length % 20 : Nat) : Int) := by
    split <;> omega
  simp only [histPrev, back, holds.histMax, holds.addIdx, place]
  rw [if_neg (by omega), if_pos trivial]

theorem histNext_back (less : count < min lines.length 19) : histNext (back lines (count + 1)) =
      (if count = 0 then some [] else lines.reverse[count - 1]?, back lines count) := by
  have holds := holds_entered lines
  have place : (if (((lines.length - (count + 1)) % 20 : Nat) : Int) + 1 >
      ((min lines.length 19 : Nat) : Int) then 0
      else (((lines.length - (count + 1)) % 20 : Nat) : Int) + 1) =
      (((lines.length - count) % 20 : Nat) : Int) := by
    split <;> omega
  simp only [histNext, back, holds.histMax, holds.addIdx, place]
  rw [if_neg (by omega), if_neg (by omega)]
  by_cases first : count = 0
  · rw [if_pos first, if_pos (by rw [first, Nat.sub_zero])]
  · have inside : lines.length - 1 - (count - 1) < lines.length := by omega
    have line := holds.slot (lines.length - count) lines[lines.length - 1 - (count - 1)] (by
        rw [← List.getElem?_eq_getElem inside]
        congr 1
        omega) (by omega)
    rw [if_neg first, if_neg (by omega), List.getElem?_reverse (by omega),
      List.getElem?_eq_getElem inside, Int.toNat_natCast, line]

theorem previous_entered (some : lines ≠ []) :
    previous count (entered lines) = back lines (min count (min lines.length 19)) := by
  induction count with
  | zero =>
    rw [Nat.zero_min, back, Nat.sub_zero, ← cur_entered some]
    rfl
  | succ count induction =>
    rw [previous, Function.iterate_succ_apply', ← previous, induction]
    by_cases less : count < min lines.length 19
    · rw [Nat.min_eq_left (Nat.le_of_lt less), Nat.min_eq_left less, histPrev_back less]
    · have all := Nat.le_of_not_lt less
      rw [Nat.min_eq_right all, Nat.min_eq_right (Nat.le_succ_of_le all), histPrev_last]

/-- The lines come back in the order opposite to the one they were entered in. -/
theorem history_ring (lines : List Line) (some : lines ≠ []) (count : Nat) :
    (count < min lines.length 19 → histPrev (previous count (entered lines)) =
          (lines.reverse[count]?, previous (count + 1) (entered lines)) ∧
        histNext (previous (count + 1) (entered lines)) =
          (if count = 0 then Option.some [] else lines.reverse[count - 1]?,
            previous count (entered lines))) ∧
      (min lines.length 19 ≤ count →
        histPrev (previous count (entered lines)) = (none, previous count (entered lines))) := by
  rw [previous_entered some, previous_entered some]
  constructor
  · intro less
    rw [Nat.min_eq_left (Nat.le_of_lt less), Nat.min_eq_left less]
    exact ⟨histPrev_back less, histNext_back less⟩
  · intro all
    rw [Nat.min_eq_right all]
    exact histPrev_last

end

def manyLines : List Line := (List.range 25).map fun index => [UInt8.ofNat index]

/-- Of 25 lines the last 19 come back. -/
theorem history_ring_many :
    histPrev (previous 18 (entered manyLines)) = (some [6], previous 19 (entered manyLines)) ∧
      histPrev (previous 19 (entered manyLines)) = (none, previous 19 (entered manyLines)) :=
  ⟨((history_ring manyLines (by decide) 18).1 (by decide)).1,
    (history_ring manyLines (by decide) 19).2 (by decide)⟩

end UBootV210.Console
