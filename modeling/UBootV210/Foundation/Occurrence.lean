import UBootV210.Foundation.CString

/-! # Occurrences of a list in a list

The first occurrence, and a search for the last one that steps from occurrence to
occurrence and may be told where to stop. -/

namespace UBootV210.Occurrence

variable {Element : Type}

def OccursAt (needle text : List Element) (position : Nat) : Prop :=
  needle <+: text.drop position

def firstOccurrence [DecidableEq Element] (needle : List Element) : List Element → Option Nat
  | [] => if needle = [] then some 0 else none
  | element :: text =>
      if needle <+: element :: text then some 0 else (firstOccurrence needle text).map (· + 1)

/-- The last occurrence that ends at the limit or before it. -/
def lastOccurrenceLoop [DecidableEq Element] (needle text : List Element) (limit : Option Nat) :
    Nat → Nat → Option Nat → Exec (Option Nat)
  | 0, _, _ => .error .diverges
  | fuel + 1, start, result =>
      match firstOccurrence needle (text.drop start) with
      | none => .ok result
      | some offset =>
          if limit.any fun limit => limit < start + offset + needle.length then
            .ok result
          else
            lastOccurrenceLoop needle text limit fuel (start + offset + 1) (some (start + offset))

theorem OccursAt.inside (occurs : OccursAt needle text position) (nonempty : needle ≠ []) :
    position + needle.length ≤ text.length := by
  have short := occurs.length_le
  rw [List.length_drop] at short
  have positive := List.length_pos_of_ne_nil nonempty
  omega

theorem occursAt_drop (needle text : List Element) (start position : Nat) :
    OccursAt needle (text.drop start) position ↔ OccursAt needle text (start + position) := by
  rw [OccursAt, OccursAt, List.drop_drop]

variable [DecidableEq Element]

theorem firstOccurrence_eq_none {needle text : List Element} (nonempty : needle ≠ [])
    (missing : firstOccurrence needle text = none) (position : Nat) :
    ¬ OccursAt needle text position := by
  induction text generalizing position with
  | nil =>
    intro occurs
    have inside := occurs.inside nonempty
    have positive := List.length_pos_of_ne_nil nonempty
    rw [List.length_nil] at inside
    omega
  | cons element text induction =>
    rw [firstOccurrence] at missing
    split at missing
    · cases missing
    case isFalse absent =>
      cases position with
      | zero => exact absent
      | succ position => exact induction (Option.map_eq_none_iff.mp missing) position

theorem firstOccurrence_eq_some {needle text : List Element}
    (found : firstOccurrence needle text = some position) :
    OccursAt needle text position ∧ ∀ earlier < position, ¬ OccursAt needle text earlier := by
  induction text generalizing position with
  | nil =>
    rw [firstOccurrence] at found
    split at found
    case isTrue empty =>
      cases found
      rw [empty]
      exact ⟨List.nil_prefix, fun earlier before => absurd before (Nat.not_lt_zero _)⟩
    · cases found
  | cons element text induction =>
    rw [firstOccurrence] at found
    split at found
    case isTrue occurs =>
      cases found
      exact ⟨occurs, fun earlier before => absurd before (Nat.not_lt_zero _)⟩
    case isFalse absent =>
      cases inner : firstOccurrence needle text with
      | none =>
        rw [inner] at found
        cases found
      | some offset =>
        rw [inner] at found
        cases found
        have later := induction inner
        refine ⟨later.1, fun earlier before => ?_⟩
        cases earlier with
        | zero => exact absent
        | succ earlier => exact later.2 earlier (Nat.lt_of_succ_lt_succ before)

/-! ## The last occurrence -/

def Allowed (needle text : List Element) (limit : Option Nat) (position : Nat) : Prop :=
  OccursAt needle text position ∧ ∀ bound, limit = some bound → position + needle.length ≤ bound

/-- The greatest position that satisfies a predicate, if there is one. -/
def IsLast (holds : Nat → Prop) : Option Nat → Prop
  | none => ∀ position, ¬ holds position
  | some last => holds last ∧ ∀ position, last < position → ¬ holds position

theorem lastOccurrenceLoop_eq {needle text : List Element} (nonempty : needle ≠ [])
    {limit : Option Nat} {fuel start : Nat} (inside : start ≤ text.length)
    (enough : text.length < start + fuel)
    (sofar : IsLast (fun position => Allowed needle text limit position ∧ position < start)
      result) :
    ∃ last, lastOccurrenceLoop needle text limit fuel start result = .ok last ∧
      IsLast (Allowed needle text limit) last := by
  induction fuel generalizing start result with
  | zero => omega
  | succ fuel induction =>
    -- The search ends here if nothing from `start` on is allowed.
    have ends (none_left : ∀ position, start ≤ position → ¬ Allowed needle text limit position) :
        IsLast (Allowed needle text limit) result := by
      cases result with
      | none =>
        intro position allowed
        by_cases before : position < start
        · exact sofar position ⟨allowed, before⟩
        · exact none_left position (Nat.le_of_not_lt before) allowed
      | some last =>
        refine ⟨sofar.1.1, fun position after allowed => ?_⟩
        by_cases before : position < start
        · exact sofar.2 position after ⟨allowed, before⟩
        · exact none_left position (Nat.le_of_not_lt before) allowed
    rw [lastOccurrenceLoop]
    cases found : firstOccurrence needle (text.drop start) with
    | none =>
      refine ⟨result, rfl, ends fun position after allowed => ?_⟩
      apply firstOccurrence_eq_none nonempty found (position - start)
      rw [occursAt_drop, Nat.add_sub_cancel' after]
      exact allowed.1
    | some offset =>
      have first := firstOccurrence_eq_some found
      have occurs : OccursAt needle text (start + offset) :=
        (occursAt_drop needle text start offset).mp first.1
      have later (position : Nat) (after : start ≤ position)
          (occursLater : OccursAt needle text position) : start + offset ≤ position := by
        by_contra before
        apply first.2 (position - start) (by omega)
        rw [occursAt_drop, Nat.add_sub_cancel' after]
        exact occursLater
      have bounded := occurs.inside nonempty
      have positive := List.length_pos_of_ne_nil nonempty
      dsimp only
      split
      case isTrue exceeds =>
        refine ⟨result, rfl, ends fun position after allowed => ?_⟩
        cases limit with
        | none => simp at exceeds
        | some bound =>
          have within := allowed.2 bound rfl
          have beyond := later position after allowed.1
          simp only [Option.any_some, decide_eq_true_eq] at exceeds
          omega
      case isFalse within =>
        apply induction (by omega) (by omega)
        refine ⟨⟨⟨occurs, fun bound limited => ?_⟩, by omega⟩,
          fun position after allowed => by omega⟩
        rw [limited] at within
        simpa using within

theorem lastOccurrenceLoop_start {needle text : List Element} (nonempty : needle ≠ [])
    {limit : Option Nat} :
    ∃ last, lastOccurrenceLoop needle text limit (text.length + 1) 0 none = .ok last ∧
      IsLast (Allowed needle text limit) last :=
  lastOccurrenceLoop_eq nonempty (Nat.zero_le _) (by omega)
    fun _ allowed => absurd allowed.2 (Nat.not_lt_zero _)

section

variable {Entry Value : Type} (read : Bool → Entry → Option Value)

/-- The last value that an entry gives; `first` is handed to the first entry. -/
def lastRead : Bool → List Entry → Option Value
  | _, [] => none
  | first, entry :: entries => (lastRead false entries).or (read first entry)

variable {read}

theorem lastRead_append : lastRead read first (earlier ++ later) =
      (lastRead read (first && earlier.isEmpty) later).or (lastRead read first earlier) := by
  induction earlier generalizing first with
  | nil => simp [lastRead]
  | cons entry earlier induction => simp [lastRead, induction, Option.or_assoc]

theorem lastRead_false_eq_none_iff :
    lastRead read false entries = none ↔ ∀ entry ∈ entries, read false entry = none := by
  induction entries with
  | nil => simp [lastRead]
  | cons entry entries induction => simp [lastRead, induction, and_comm]

theorem lastRead_eq_some_iff : lastRead read first entries = some value ↔
      ∃ earlier entry later, entries = earlier ++ entry :: later ∧
        read (first && earlier.isEmpty) entry = some value ∧
        lastRead read false later = none := by
  constructor
  · intro found
    induction entries generalizing first with
    | nil => cases found
    | cons entry entries induction =>
      rw [lastRead] at found
      cases rest : lastRead read false entries with
      | none =>
        rw [rest, Option.none_or] at found
        exact ⟨[], entry, entries, rfl, by simpa using found, rest⟩
      | some other =>
        rw [rest, Option.some_or] at found
        cases found
        obtain ⟨earlier, last, later, cut, value, none⟩ := induction rest
        exact ⟨entry :: earlier, last, later, by rw [cut]; rfl, by simpa using value, none⟩
  · rintro ⟨earlier, entry, later, rfl, value, none⟩
    rw [lastRead_append, lastRead, none, value]
    rfl

end

end UBootV210.Occurrence
