import UBootV210.Environment.EnvAttr

/-! # What the readers of an attribute list find

The search of `env_attr_lookup` ends at the last entry that it takes for the
name. Entry by entry, this is compared with what `env_attr_walk` hands to its
callback. -/

namespace UBootV210.Environment

open Occurrence

structure AttrName (name : List UInt8) : Prop where
  nonempty : name ≠ []
  bytes : ∀ byte ∈ name, byte ≠ comma ∧ byte ≠ colon ∧ byte ≠ 0 ∧ isspace byte = false

theorem isspace_blank : isspace blank = true := by decide

variable {name : List UInt8}

theorem AttrName.ne_blank (valid : AttrName name) (member : byte ∈ name) : byte ≠ blank := by
  rintro rfl
  have space := (valid.bytes blank member).2.2.2
  cases space

/-! ## The bytes around a hit -/

def StartsEntry (before : List UInt8) : Prop :=
  before = [] ∨ (before.reverse.dropWhile (· = blank)).head? = some comma

def EndsName (after : List UInt8) : Prop :=
  nextByte after = colon ∨ nextByte after = comma ∨ nextByte after = 0

/-- A hit that `env_attr_lookup` accepts, in a text with something before it. -/
def AcceptedAt (name left text : List UInt8) (position : Nat) : Prop :=
  OccursAt name text position ∧ StartsEntry (left ++ text.take position) ∧
    EndsName (text.drop (position + name.length))

variable {rest : List UInt8} {guard : UInt8}

theorem skipBack_append (front : skipBack rest = .ok guard) :
    skipBack (bytes ++ rest) = .ok ((bytes.dropWhile (· = blank)).headD guard) := by
  induction bytes with
  | nil => exact front
  | cons byte bytes induction =>
    rw [List.cons_append, skipBack]
    by_cases isBlank : byte = blank
    · rw [if_pos isBlank, induction, List.dropWhile_cons_of_pos (by simpa using isBlank)]
    · rw [if_neg isBlank, List.dropWhile_cons_of_neg (by simpa using isBlank)]
      rfl

theorem skipSpaces_append_comma (text rest : List UInt8) :
    skipSpaces (text ++ comma :: rest) = skipSpaces text ++ comma :: rest := by
  rw [skipSpaces, List.dropWhile_append]
  split
  case isTrue none =>
    have empty : skipSpaces text = [] := List.isEmpty_iff.mp none
    rw [empty]
    exact List.dropWhile_cons_of_neg (by decide)
  · rfl

def leftOf (first : Bool) : List UInt8 := bif first then [] else [comma]

variable {text : List UInt8}

/-- The first entry counts as one after a comma if the memory in front of the list
has a comma there. -/
theorem prevch_iff (occurs : OccursAt name text position) (nonempty : name ≠ []) (guard : UInt8) :
    (position = 0 ∨ ((text.take position).reverse.dropWhile (· = blank)).headD guard = comma) ↔
      StartsEntry (leftOf (guard ≠ comma) ++ text.take position) := by
  have inside := occurs.inside nonempty
  have positive := List.length_pos_of_ne_nil nonempty
  have first : text.take position = [] ↔ position = 0 := by
    constructor
    · intro none
      have length := congrArg List.length none
      rw [List.length_take, List.length_nil] at length
      omega
    · rintro rfl
      rfl
  by_cases isComma : guard = comma
  · have left : leftOf (guard ≠ comma) = [comma] := by simp [leftOf, isComma]
    have stops := skipSpaces_append_comma (text.take position).reverse []
    rw [skipSpaces, skipSpaces] at stops
    rw [StartsEntry, left, List.singleton_append, List.reverse_cons, stops, isComma]
    cases scanned : (text.take position).reverse.dropWhile (· = blank) with
    | nil => simp
    | cons byte bytes =>
      -- the byte that stops the scan stands in the list, so the hit is not at its beginning
      have within : position ≠ 0 := by
        intro zero
        rw [zero] at scanned
        cases scanned
      simp [within]
  · have left : leftOf (guard ≠ comma) = [] := by simp [leftOf, isComma]
    rw [StartsEntry, left, List.nil_append, first]
    cases (text.take position).reverse.dropWhile (· = blank) with
    | nil => simp [isComma]
    | cons byte bytes => simp

theorem AttrName.apart (valid : AttrName name)
    (ends : EndsName (text.drop (first + name.length))) (later : first < second)
    (occurs : OccursAt name text second) : first + name.length ≤ second := by
  by_contra overlap
  have inside := occurs.inside valid.nonempty
  have index : first + name.length - second < name.length := by omega
  have byteEq : name[first + name.length - second] = text[first + name.length] := by
    obtain ⟨rest, cut⟩ := occurs
    have same : (name ++ rest)[first + name.length - second]? =
        (text.drop second)[first + name.length - second]? := by rw [cut]
    rw [List.getElem?_append_left index, List.getElem?_drop,
      show second + (first + name.length - second) = first + name.length by omega,
      List.getElem?_eq_getElem index, List.getElem?_eq_getElem (by omega)] at same
    exact Option.some.inj same
  have member : text[first + name.length] ∈ name := by
    rw [← byteEq]
    exact List.getElem_mem index
  have cut : text.drop (first + name.length) =
      text[first + name.length] :: text.drop (first + name.length + 1) :=
    List.drop_eq_getElem_cons (by omega)
  have bytes := valid.bytes _ member
  rw [EndsName, nextByte, cut, skipSpaces,
    List.dropWhile_cons_of_neg (by simpa using valid.ne_blank member)] at ends
  rcases ends with isColon | isComma | isNul
  · exact bytes.2.1 isColon
  · exact bytes.1 isComma
  · exact bytes.2.2.1 isNul

theorem reverseStrstr_eq {searched searchFor : List UInt8} (nonempty : searchFor ≠ [])
    (searchedStart : Option Nat) :
    ∃ last, reverseStrstr searched searchFor searchedStart = .ok last ∧
      IsLast (Allowed searchFor searched searchedStart) last := by
  rw [reverseStrstr, if_neg nonempty]
  exact lastOccurrenceLoop_start nonempty

variable {before : List UInt8} {hit : Option Nat}

theorem lookupLoop_eq (valid : AttrName name) (front : skipBack before.reverse = .ok guard)
    (last : IsLast (Allowed name text limit) hit)
    (skipped : ∀ position, AcceptedAt name (leftOf (guard ≠ comma)) text position →
      ∀ bound, limit = some bound → position + name.length ≤ bound)
    (enough : ∀ position, hit = some position → position + 1 < fuel) (running : 0 < fuel) :
    ∃ found, lookupLoop before text name fuel hit = .ok found ∧
      IsLast (AcceptedAt name (leftOf (guard ≠ comma)) text) found := by
  induction fuel generalizing limit hit with
  | zero => exact absurd running (Nat.lt_irrefl 0)
  | succ fuel induction =>
    cases hit with
    | none => exact ⟨none, rfl, fun position accepted =>
      last position ⟨accepted.1, skipped position accepted⟩⟩
    | some entry =>
      have occurs : OccursAt name text entry := last.1.1
      rw [lookupLoop, List.reverse_append, skipBack_append front, Exec.ok_bind]
      dsimp only
      have starts := prevch_iff occurs valid.nonempty guard
      split
      case isTrue checked =>
        refine ⟨some entry, rfl, ⟨occurs, starts.mp checked.1, checked.2⟩,
          fun position after accepted => ?_⟩
        exact last.2 position after ⟨accepted.1, skipped position accepted⟩
      case isFalse rejected =>
        obtain ⟨next, search, lastNext⟩ :=
          @reverseStrstr_eq text name valid.nonempty (some entry)
        have bound := enough entry rfl
        rw [search, Exec.ok_bind]
        apply induction lastNext
        · intro position accepted bound same
          cases same
          have before : position < entry := by
            by_contra after
            rcases Nat.lt_or_eq_of_le (Nat.le_of_not_lt after) with later | same
            · exact last.2 position later ⟨accepted.1, skipped position accepted⟩
            · rw [← same] at accepted
              exact rejected ⟨starts.mpr accepted.2.1, accepted.2.2⟩
          exact valid.apart accepted.2.2 before occurs
        · intro position same
          rw [same] at lastNext
          have short := lastNext.1.2 entry rfl
          have positive := List.length_pos_of_ne_nil valid.nonempty
          omega
        · omega

/-! ## Entry by entry -/

instance (after : List UInt8) : Decidable (EndsName after) :=
  inferInstanceAs (Decidable (_ ∨ _ ∨ _))

/-- What `env_attr_lookup` copies if it accepts an entry; blanks before the name are
skipped back to a comma, so not in the first entry. -/
def plainAttributes (name : List UInt8) (first : Bool) (entry : List UInt8) :
    Option (List UInt8) :=
  let entry := bif first then entry else skipSpaces entry
  if name <+: entry ∧ EndsName (entry.drop name.length) then
    some (attributesAfter (entry.drop name.length))
  else
    none

def lastPlain (name : List UInt8) : Bool → List (List UInt8) → Option (List UInt8) :=
  lastRead (plainAttributes name)

theorem attrEntries_cases (text : List UInt8) : (comma ∉ text ∧ attrEntries text = [text]) ∨
      ∃ entry rest, text = entry ++ comma :: rest ∧ comma ∉ entry ∧
        attrEntries text = entry :: attrEntries rest := by
  induction text with
  | nil => exact .inl ⟨List.not_mem_nil, rfl⟩
  | cons byte text induction =>
    by_cases isComma : byte = comma
    · refine .inr ⟨[], text, by rw [isComma]; rfl, List.not_mem_nil, ?_⟩
      rw [attrEntries, if_pos isComma]
    · rw [attrEntries, if_neg isComma]
      rcases induction with single | ⟨entry, rest, cut, free, entries⟩
      · refine .inl ⟨?_, by rw [single.2]⟩
        simp only [List.mem_cons, not_or]
        exact ⟨fun same => isComma same.symm, single.1⟩
      · refine .inr ⟨byte :: entry, rest, by rw [cut]; rfl, ?_, by rw [entries]⟩
        simp only [List.mem_cons, not_or]
        exact ⟨fun same => isComma same.symm, free⟩

theorem AttrName.skipSpaces (valid : AttrName name) (starts : name <+: text) :
    skipSpaces text = text := by
  obtain ⟨rest, rfl⟩ := starts
  cases name with
  | nil => exact absurd rfl valid.nonempty
  | cons byte name =>
    exact List.dropWhile_cons_of_neg (by simpa using valid.ne_blank List.mem_cons_self)

theorem AttrName.comma_notMem (valid : AttrName name) : comma ∉ name :=
  fun member => (valid.bytes comma member).1 rfl

theorem startsEntry_comma_iff (free : comma ∉ before) :
    StartsEntry (comma :: before) ↔ ∀ byte ∈ before, byte = blank := by
  have reversed : (comma :: before).reverse = before.reverse ++ [comma] := by simp
  rw [StartsEntry, reversed]
  constructor
  · rintro (empty | starts)
    · cases empty
    · intro byte member
      by_contra notBlank
      have kept : before.reverse.dropWhile (· = blank) ≠ [] := by
        intro none
        have all := List.dropWhile_eq_nil_iff.mp none byte (List.mem_reverse.mpr member)
        exact notBlank (by simpa using all)
      rw [List.dropWhile_append, if_neg (by simpa using kept), List.head?_append_of_ne_nil _ kept]
        at starts
      have stays : comma ∈ before.reverse :=
        (List.dropWhile_sublist _).subset (List.mem_of_mem_head? starts)
      exact free (List.mem_reverse.mp stays)
  · intro blanks
    right
    rw [List.dropWhile_append_of_pos]
    · rfl
    · intro byte member
      simpa using blanks byte (List.mem_reverse.mp member)

theorem startsEntry_first_iff (free : comma ∉ before) : StartsEntry before ↔ before = [] := by
  constructor
  · rintro (empty | starts)
    · exact empty
    · have stays : comma ∈ before.reverse :=
        (List.dropWhile_sublist _).subset (List.mem_of_mem_head? starts)
      exact absurd (List.mem_reverse.mp stays) free
  · exact .inl

variable {entry : List UInt8} {first : Bool}

theorem AttrName.acceptedAt_entry (valid : AttrName name) (free : comma ∉ entry)
    (accepted : AcceptedAt name (leftOf first) entry position) :
    plainAttributes name first entry =
      some (attributesAfter (entry.drop (position + name.length))) := by
  obtain ⟨occurs, starts, ends⟩ := accepted
  have inside := occurs.inside valid.nonempty
  have positive := List.length_pos_of_ne_nil valid.nonempty
  have freeBefore : comma ∉ entry.take position :=
    fun member => free (List.mem_of_mem_take member)
  have trimmed : (bif first then entry else Environment.skipSpaces entry) =
      entry.drop position := by
    cases first with
    | true =>
      have none : entry.take position = [] := (startsEntry_first_iff freeBefore).mp starts
      have length := congrArg List.length none
      rw [List.length_take, List.length_nil] at length
      have zero : position = 0 := by omega
      rw [zero]
      rfl
    | false =>
      have blanks := (startsEntry_comma_iff freeBefore).mp starts
      change Environment.skipSpaces entry = _
      conv_lhs => rw [← List.take_append_drop position entry]
      rw [Environment.skipSpaces, List.dropWhile_append_of_pos fun byte member => by
        simpa using blanks byte member]
      exact valid.skipSpaces occurs
  rw [plainAttributes, trimmed, List.drop_drop, if_pos ⟨occurs, ends⟩]

theorem acceptedAt_of_plain (plain : plainAttributes name first entry = some attributes) :
    ∃ position, AcceptedAt name (leftOf first) entry position := by
  rw [plainAttributes] at plain
  split at plain
  case isTrue found =>
    cases first with
    | true => exact ⟨0, found.1, .inl rfl, by simpa using found.2⟩
    | false =>
      let lead := entry.takeWhile (· = blank)
      have cut : lead ++ skipSpaces entry = entry := List.takeWhile_append_dropWhile
      have dropped : entry.drop lead.length = skipSpaces entry := by
        conv_lhs => rw [← cut]
        exact List.drop_left' rfl
      have taken : entry.take lead.length = lead := by
        conv_lhs => rw [← cut]
        exact List.take_left' rfl
      have blanks : ∀ byte ∈ lead, byte = blank := fun byte member => by
        simpa using List.mem_takeWhile_imp member
      have free : comma ∉ lead := fun member => absurd (blanks comma member) (by decide)
      refine ⟨lead.length, ?_, ?_, ?_⟩
      · rw [OccursAt, dropped]
        exact found.1
      · rw [taken]
        exact (startsEntry_comma_iff free).mpr blanks
      · rw [← List.drop_drop, dropped]
        exact found.2
  · cases plain

/-! ## A comma ends an entry -/

theorem prefix_of_append_comma (free : comma ∉ name) (starts : name <+: text ++ comma :: rest) :
    name <+: text := by
  rcases Nat.le_total name.length text.length with short | long
  · exact List.prefix_of_prefix_length_le starts (List.prefix_append _ _) short
  · have within : text <+: name :=
      List.prefix_of_prefix_length_le (List.prefix_append _ _) starts long
    obtain ⟨more, rfl⟩ := within
    have tail := (List.prefix_append_right_inj text).mp starts
    cases more with
    | nil => rw [List.append_nil]
    | cons byte more =>
      have same : byte = comma := (List.cons_prefix_cons.mp tail).1
      rw [same] at free
      exact absurd (by simp) free

theorem endsName_append_comma : EndsName (text ++ comma :: rest) ↔ EndsName text := by
  rw [EndsName, EndsName, nextByte, nextByte, skipSpaces_append_comma]
  cases skipSpaces text with
  | nil => simp
  | cons byte text => simp

theorem attributesAfter_append_comma :
    attributesAfter (text ++ comma :: rest) = attributesAfter text := by
  rw [attributesAfter, attributesAfter, skipSpaces_append_comma]
  cases skipSpaces text with
  | nil => rfl
  | cons byte text =>
    simp only [List.cons_append, skipSpaces_append_comma]
    split
    · rw [List.takeWhile_append]
      split
      case isTrue whole =>
        have all := (List.takeWhile_prefix _).eq_of_length whole
        rw [all]
        simp
      · rfl
    · rfl

theorem startsEntry_append_comma :
    StartsEntry (before ++ comma :: between) ↔ StartsEntry (comma :: between) := by
  have stops (rest : List UInt8) : (between.reverse ++ comma :: rest).dropWhile (· = blank) =
      between.reverse.dropWhile (· = blank) ++ comma :: rest :=
    skipSpaces_append_comma between.reverse rest
  have reversed : (before ++ comma :: between).reverse =
      between.reverse ++ comma :: before.reverse := by simp
  have single : (comma :: between).reverse = between.reverse ++ [comma] := by simp
  rw [StartsEntry, StartsEntry, reversed, single, stops, stops]
  cases between.reverse.dropWhile (· = blank) with
  | nil => simp
  | cons byte bytes => simp

theorem AttrName.acceptedAt_append (valid : AttrName name) (position : Nat) :
    AcceptedAt name left (entry ++ comma :: rest) position ↔ AcceptedAt name left entry position ∨
        ∃ later, position = entry.length + 1 + later ∧ AcceptedAt name [comma] rest later := by
  have later (position : Nat) :
      AcceptedAt name left (entry ++ comma :: rest) (entry.length + 1 + position) ↔
        AcceptedAt name [comma] rest position := by
    have dropped (count : Nat) : (entry ++ comma :: rest).drop (entry.length + 1 + count) =
        rest.drop count := by
      rw [Nat.add_assoc, ← List.drop_drop, List.drop_left' rfl, Nat.add_comm]
      rfl
    have taken : left ++ (entry ++ comma :: rest).take (entry.length + 1 + position) =
        (left ++ entry) ++ comma :: rest.take position := by
      rw [Nat.add_assoc, List.take_length_add_append, Nat.add_comm, List.take_succ_cons,
        List.append_assoc]
    rw [AcceptedAt, AcceptedAt, OccursAt, OccursAt, dropped, taken, startsEntry_append_comma,
      Nat.add_assoc, dropped]
    rfl
  have earlier (inside : position + name.length ≤ entry.length) :
      AcceptedAt name left (entry ++ comma :: rest) position ↔
        AcceptedAt name left entry position := by
    have dropped (count : Nat) (short : count ≤ entry.length) :
        (entry ++ comma :: rest).drop count = entry.drop count ++ comma :: rest := by
      rw [List.drop_append_of_le_length short]
    rw [AcceptedAt, AcceptedAt, OccursAt, OccursAt, dropped _ (by omega), dropped _ inside,
      endsName_append_comma, List.take_append_of_le_length (by omega)]
    exact and_congr_left' ⟨prefix_of_append_comma valid.comma_notMem,
      fun starts => starts.trans (List.prefix_append _ _)⟩
  constructor
  · intro accepted
    by_cases before : position ≤ entry.length
    · left
      have occurs : OccursAt name entry position := by
        have found := accepted.1
        rw [OccursAt, List.drop_append_of_le_length before] at found
        exact prefix_of_append_comma valid.comma_notMem found
      exact (earlier (occurs.inside valid.nonempty)).mp accepted
    · right
      refine ⟨position - (entry.length + 1), by omega, (later _).mp ?_⟩
      rw [Nat.add_sub_cancel' (by omega)]
      exact accepted
  · rintro (accepted | ⟨position, rfl, accepted⟩)
    · exact (earlier (accepted.1.inside valid.nonempty)).mpr accepted
    · exact (later position).mpr accepted

theorem AttrName.lastPlain_eq (valid : AttrName name)
    (last : IsLast (AcceptedAt name (leftOf first) text) found) :
    (found.map fun position => attributesAfter (text.drop (position + name.length))) =
      lastPlain name first (attrEntries text) := by
  induction length : text.length using Nat.strong_induction_on generalizing text first found with
  | _ _ induction =>
  subst length
  rcases attrEntries_cases text with single | ⟨entry, rest, rfl, free, entries⟩
  · rw [single.2]
    change _ = plainAttributes name first text
    cases found with
    | none =>
      cases plain : plainAttributes name first text with
      | none => rfl
      | some attributes =>
        obtain ⟨position, accepted⟩ := acceptedAt_of_plain plain
        exact absurd accepted (last position)
    | some position => exact (valid.acceptedAt_entry single.1 last.1).symm
  · have shorter : rest.length < (entry ++ comma :: rest).length := by simp; omega
    have inRest {position : Nat} (accepted : AcceptedAt name (leftOf false) rest position) :
        AcceptedAt name (leftOf first) (entry ++ comma :: rest) (entry.length + 1 + position) :=
      (valid.acceptedAt_append _).mpr (.inr ⟨position, rfl, accepted⟩)
    rw [entries, lastPlain, lastRead, ← lastPlain]
    cases found with
    | none =>
      have lastLater : IsLast (AcceptedAt name (leftOf false) rest) none :=
        fun position accepted => last _ (inRest accepted)
      have noneLater : none = lastPlain name false (attrEntries rest) :=
        induction _ shorter lastLater rfl
      rw [← noneLater, Option.none_or]
      cases plain : plainAttributes name first entry with
      | none => rfl
      | some attributes =>
        obtain ⟨position, accepted⟩ := acceptedAt_of_plain plain
        exact absurd ((valid.acceptedAt_append _).mpr (.inl accepted)) (last position)
    | some position =>
      rcases (valid.acceptedAt_append position).mp last.1 with accepted | ⟨later, rfl, accepted⟩
      · have inside := accepted.1.inside valid.nonempty
        have lastLater : IsLast (AcceptedAt name (leftOf false) rest) none :=
          fun later acceptedLater => last.2 _ (by omega) (inRest acceptedLater)
        have noneLater : none = lastPlain name false (attrEntries rest) :=
          induction _ shorter lastLater rfl
        rw [← noneLater, Option.none_or, valid.acceptedAt_entry free accepted, Option.map_some,
          List.drop_append_of_le_length inside, attributesAfter_append_comma]
      · have lastLater : IsLast (AcceptedAt name (leftOf false) rest) (some later) :=
          ⟨accepted, fun after beyond acceptedAfter =>
            last.2 _ (by omega) (inRest acceptedAfter)⟩
        rw [← induction _ shorter lastLater rfl, Option.map_some, Option.map_some,
          Option.some_or, Nat.add_assoc, Nat.add_assoc, ← List.drop_drop,
          List.drop_left' rfl, Nat.add_comm 1]
        rfl

theorem envAttrLookup_eq {attrList name : CString} (valid : AttrName name.bytes)
    (front : skipBack before.reverse = .ok guard) :
    envAttrLookup before (some attrList) name =
      .ok (match lastPlain name.bytes (guard ≠ comma) (attrEntries attrList.bytes) with
        | none => (2, none)
        | some attributes => (0, some (.ofBytes attributes))) := by
  obtain ⟨hit, search, lastHit⟩ := @reverseStrstr_eq attrList.bytes _ valid.nonempty none
  have enough : ∀ position, hit = some position → position + 1 < attrList.length + 2 := by
    intro position same
    rw [same] at lastHit
    have inside := lastHit.1.1.inside valid.nonempty
    have length : attrList.length = attrList.bytes.length := rfl
    omega
  obtain ⟨found, loops, lastFound⟩ := lookupLoop_eq valid front lastHit
    (fun _ _ _ impossible => by cases impossible) enough (Nat.succ_pos _)
  rw [envAttrLookup, search]
  simp only [Exec.ok_bind, loops]
  rw [← valid.lastPlain_eq lastFound]
  cases found with
  | none => rfl
  | some position => rfl

end UBootV210.Environment
