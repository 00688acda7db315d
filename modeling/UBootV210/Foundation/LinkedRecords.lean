import Mathlib

/-! # Doubly linked lists of records

Records that are numbered and refer to their neighbours by number. -/

namespace UBootV210.LinkedRecords

variable {Record Content : Type*}

def firstOr (follows : Nat) : List (Nat × Content) → Nat
  | [] => follows
  | entry :: _ => entry.1

def lastOr (precedes : Nat) : List (Nat × Content) → Nat
  | [] => precedes
  | entry :: entries => lastOr entry.1 entries

@[simp] theorem firstOr_nil : firstOr follows ([] : List (Nat × Content)) = follows :=
  rfl

@[simp] theorem firstOr_cons : firstOr follows (entry :: entries) = entry.1 := rfl

@[simp] theorem lastOr_nil : lastOr precedes ([] : List (Nat × Content)) = precedes := rfl

@[simp] theorem lastOr_cons : lastOr precedes (entry :: entries) = lastOr entry.1 entries := rfl

theorem firstOr_append :
    firstOr follows (front ++ back) = firstOr (firstOr follows back) front := by
  cases front with
  | nil => rfl
  | cons entry entries => rfl

theorem lastOr_append (precedes : Nat) (front back : List (Nat × Content)) :
    lastOr precedes (front ++ back) = lastOr (lastOr precedes front) back := by
  induction front generalizing precedes with
  | nil => rfl
  | cons entry entries induction => exact induction entry.1

variable {entries : List (Nat × Content)}

theorem firstOr_congr (nonempty : entries ≠ []) :
    firstOr follows entries = firstOr other entries := by
  cases entries with
  | nil => exact absurd rfl nonempty
  | cons entry entries => rfl

theorem firstOr_mem (nonempty : entries ≠ []) (follows : Nat) :
    ∃ entry ∈ entries, entry.1 = firstOr follows entries := by
  cases entries with
  | nil => exact absurd rfl nonempty
  | cons entry entries => exact ⟨entry, List.mem_cons_self, rfl⟩

theorem lastOr_mem (nonempty : entries ≠ []) (precedes : Nat) :
    ∃ entry ∈ entries, entry.1 = lastOr precedes entries := by
  induction entries generalizing precedes with
  | nil => exact absurd rfl nonempty
  | cons entry entries induction =>
    cases entries with
    | nil => exact ⟨entry, List.mem_cons_self, rfl⟩
    | cons second entries =>
      obtain ⟨last, member, number⟩ := induction (List.cons_ne_nil _ _) entry.1
      exact ⟨last, List.mem_cons_of_mem _ member, number⟩

variable (content : Record → Content) (next prev : Record → Nat)

/-- The records hold the entries in their order and are linked to each other; the
first record names `precedes` as its predecessor and the last one `follows` as
its successor. -/
def Segment (records : Nat → Record) (precedes : Nat) : List (Nat × Content) → Nat → Prop
  | [], _ => True
  | entry :: entries, follows =>
      content (records entry.1) = entry.2 ∧ prev (records entry.1) = precedes ∧
        next (records entry.1) = firstOr follows entries ∧
        Segment records entry.1 entries follows

variable {content next prev} {records changed : Nat → Record} {precedes follows : Nat}

theorem segment_append : Segment content next prev records precedes (front ++ back) follows ↔
      Segment content next prev records precedes front (firstOr follows back) ∧
        Segment content next prev records (lastOr precedes front) back follows := by
  induction front generalizing precedes with
  | nil => simp [Segment]
  | cons entry entries induction =>
    simp only [List.cons_append, Segment, induction, firstOr_append, lastOr_cons, and_assoc]

section

variable (segment : Segment content next prev records precedes entries follows)
include segment

theorem Segment.congr (same : ∀ entry ∈ entries, changed entry.1 = records entry.1) :
    Segment content next prev changed precedes entries follows := by
  induction entries generalizing precedes with
  | nil => trivial
  | cons entry entries induction =>
    obtain ⟨holds, before, after, rest⟩ := segment
    have unchanged := same entry List.mem_cons_self
    refine ⟨?_, ?_, ?_, induction rest fun other member =>
      same other (List.mem_cons_of_mem _ member)⟩
    · rw [unchanged, holds]
    · rw [unchanged, before]
    · rw [unchanged, after]

/-- Of the records of some entries only the one at a place is changed, and of that one only a
link. -/
structure Relinks (content : Record → Content) (kept link : Record → Nat)
    (records changed : Nat → Record) (entries : List (Nat × Content)) (place number : Nat) :
    Prop where
  same : ∀ entry ∈ entries, entry.1 ≠ place → changed entry.1 = records entry.1
  linked : entries ≠ [] → content (changed place) = content (records place) ∧
    kept (changed place) = kept (records place) ∧ link (changed place) = number

theorem Segment.setNext (distinct : (entries.map Prod.fst).Nodup)
    (last : Relinks content prev next records changed entries (lastOr precedes entries) number) :
    Segment content next prev changed precedes entries number := by
  obtain ⟨same, last⟩ := last
  induction entries generalizing precedes with
  | nil => trivial
  | cons entry entries induction =>
    obtain ⟨holds, before, after, rest⟩ := segment
    rw [List.map_cons, List.nodup_cons] at distinct
    cases entries with
    | nil =>
      obtain ⟨sameContent, samePrev, nextNumber⟩ := last (List.cons_ne_nil _ _)
      exact ⟨sameContent.trans holds, samePrev.trans before, nextNumber, trivial⟩
    | cons second entries =>
      have inner : lastOr precedes (entry :: second :: entries) =
        lastOr entry.1 (second :: entries) := rfl
      rw [inner] at same last
      have unchanged : changed entry.1 = records entry.1 := by
        apply same entry List.mem_cons_self
        intro equal
        obtain ⟨lastEntry, member, number⟩ := lastOr_mem (List.cons_ne_nil second entries) entry.1
        apply distinct.1
        rw [equal, ← number]
        exact List.mem_map_of_mem member
      refine ⟨?_, ?_, ?_, induction rest distinct.2 (fun other member =>
        same other (List.mem_cons_of_mem _ member)) fun _ => last (List.cons_ne_nil _ _)⟩
      · rw [unchanged, holds]
      · rw [unchanged, before]
      · rw [unchanged, after]
        rfl

theorem Segment.setPrev (distinct : (entries.map Prod.fst).Nodup)
    (first : Relinks content next prev records changed entries (firstOr follows entries) number) :
    Segment content next prev changed number entries follows := by
  cases entries with
  | nil => trivial
  | cons entry entries =>
    obtain ⟨holds, _, after, rest⟩ := segment
    obtain ⟨sameContent, sameNext, prevNumber⟩ := first.linked (List.cons_ne_nil _ _)
    rw [List.map_cons, List.nodup_cons] at distinct
    refine ⟨sameContent.trans holds, prevNumber, sameNext.trans after, rest.congr ?_⟩
    intro other member
    apply first.same other (List.mem_cons_of_mem _ member)
    rw [firstOr_cons]
    intro equal
    exact distinct.1 (equal ▸ List.mem_map_of_mem member)

end

/-- A part of a list is exchanged: the new part stands between the links of the
records on its two sides, and these name its ends. -/
theorem Segment.splice (front : Segment content next prev records precedes before left)
    (back : Segment content next prev records right after follows)
    (distinctBefore : (before.map Prod.fst).Nodup) (distinctAfter : (after.map Prod.fst).Nodup)
    (part : Segment content next prev changed (lastOr precedes before) middle
      (firstOr follows after))
    (last : Relinks content prev next records changed before (lastOr precedes before)
      (firstOr (firstOr follows after) middle))
    (first : Relinks content next prev records changed after (firstOr follows after)
      (lastOr (lastOr precedes before) middle)) :
    Segment content next prev changed precedes (before ++ (middle ++ after)) follows := by
  rw [segment_append, segment_append, firstOr_append]
  exact ⟨front.setNext distinctBefore last, part, back.setPrev distinctAfter first⟩

end UBootV210.LinkedRecords
