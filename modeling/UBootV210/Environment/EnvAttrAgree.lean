import UBootV210.Environment.EnvAttrEntries

/-! # When the two readers of an attribute list agree

`env_attr_walk` trims every kind of white space, `env_attr_lookup` skips blanks, does
not skip them at the beginning of the list, and ends the attributes at a blank. -/

namespace UBootV210.Environment

open Occurrence

/-! ## Names -/

def Blanks (text : List UInt8) : Prop := ∀ byte ∈ text, byte = blank

variable {byte : UInt8}

theorem Blanks.isspace (blanks : Blanks text) (member : byte ∈ text) : isspace byte = true := by
  rw [blanks byte member]
  exact isspace_blank

/-- An entry whose name `env_attr_lookup` can see: only blanks around it, and none
before it in the first entry. -/
def PlainName (name : List UInt8) (first : Bool) (entry : List UInt8) : Prop :=
  ∃ lead tail, entryName entry = lead ++ (name ++ tail) ∧ Blanks lead ∧ Blanks tail ∧
    (first = true → lead = [])

def plainText (attributes : List UInt8) : List UInt8 :=
  (skipSpaces attributes).takeWhile fun byte => byte ≠ comma && byte ≠ blank

def plainWord (entry : List UInt8) : List UInt8 :=
  match entryAttributes entry with
  | none => []
  | some attributes => plainText attributes

def Named (name entry : List UInt8) : Prop := strim (entryName entry) = name

def walkedAttributes (entry : List UInt8) : List UInt8 :=
  ((entryAttributes entry).map strim).getD []

variable {name : List UInt8}

theorem AttrName.tight (valid : AttrName name) : Trim.Tight isspace name :=
  ⟨fun byte head => (valid.bytes byte (List.mem_of_mem_head? head)).2.2.2,
    fun byte last => (valid.bytes byte (List.mem_of_mem_getLast? last)).2.2.2⟩

variable {entry : List UInt8} {first : Bool}

theorem PlainName.named (valid : AttrName name) (plain : PlainName name first entry) :
    Named name entry := by
  obtain ⟨lead, tail, cut, leading, trailing, -⟩ := plain
  rw [Named, cut]
  exact valid.tight.trim_around (fun byte => leading.isspace) (fun byte => trailing.isspace)

theorem entry_cut (entry : List UInt8) : (entryAttributes entry = none ∧ entry = entryName entry) ∨
      ∃ attributes, entryAttributes entry = some attributes ∧
        entry = entryName entry ++ colon :: attributes := by
  have whole : entryName entry ++ entry.dropWhile (· ≠ colon) = entry :=
    List.takeWhile_append_dropWhile
  cases rest : entry.dropWhile (· ≠ colon) with
  | nil =>
    rw [rest, List.append_nil] at whole
    exact .inl ⟨by rw [entryAttributes, rest], whole.symm⟩
  | cons byte attributes =>
    have stops := List.head?_dropWhile_not (fun byte => decide (byte ≠ colon)) entry
    rw [rest] at stops
    have isColon : byte = colon := by simpa using stops
    rw [rest, isColon] at whole
    exact .inr ⟨attributes, by rw [entryAttributes, rest], whole.symm⟩

theorem skipSpaces_blanks {tail rest : List UInt8} (blanks : Blanks tail) :
    skipSpaces (tail ++ rest) = skipSpaces rest :=
  List.dropWhile_append_of_pos fun byte member => by simpa using blanks byte member

theorem AttrName.plainAttributes_cut (valid : AttrName name)
    (leading : Blanks lead) (atStart : first = true → lead = []) :
    plainAttributes name first (lead ++ (name ++ rest)) =
      if EndsName rest then some (attributesAfter rest) else none := by
  have trimmed : (bif first then lead ++ (name ++ rest) else
      Environment.skipSpaces (lead ++ (name ++ rest))) = name ++ rest := by
    cases first with
    | true =>
      rw [atStart rfl]
      rfl
    | false =>
      change Environment.skipSpaces (lead ++ (name ++ rest)) = _
      rw [skipSpaces_blanks leading, valid.skipSpaces (List.prefix_append _ _)]
  have starts : name <+: name ++ rest := List.prefix_append _ _
  rw [plainAttributes, trimmed, List.drop_left' rfl]
  simp only [starts, true_and]

theorem PlainName.plainAttributes (valid : AttrName name) (plain : PlainName name first entry) :
    plainAttributes name first entry = some (plainWord entry) := by
  obtain ⟨lead, tail, cut, leading, trailing, atStart⟩ := plain
  rcases entry_cut entry with single | ⟨attributes, has, whole⟩
  · have ends : EndsName tail := by
      have skipped := @skipSpaces_blanks tail [] trailing
      rw [List.append_nil] at skipped
      rw [EndsName, nextByte, skipped]
      exact .inr (.inr rfl)
    have after : attributesAfter tail = [] := by
      have skipped := @skipSpaces_blanks tail [] trailing
      rw [List.append_nil] at skipped
      rw [attributesAfter, skipped]
      rfl
    rw [plainWord, single.1, single.2, cut, valid.plainAttributes_cut leading atStart, if_pos ends,
      after]
  · have skipped : skipSpaces (tail ++ colon :: attributes) = colon :: attributes := by
      rw [skipSpaces_blanks trailing]
      exact List.dropWhile_cons_of_neg (by decide)
    have ends : EndsName (tail ++ colon :: attributes) := by
      rw [EndsName, nextByte, skipped]
      exact .inl rfl
    rw [cut, List.append_assoc, List.append_assoc] at whole
    rw [plainWord, has, whole, valid.plainAttributes_cut leading atStart, if_pos ends,
      attributesAfter, skipped]
    rfl

theorem entryName_cut (free : colon ∉ before)
    (ends : rest = [] ∨ rest.head? = some colon) : entryName (before ++ rest) = before := by
  apply Trim.takeWhile_cut
  · intro byte member
    simp only [ne_eq, decide_eq_true_eq]
    rintro rfl
    exact free member
  · intro byte head
    rcases ends with empty | starts
    · rw [empty] at head
      cases head
    · rw [starts] at head
      cases head
      simp

variable {attributes : List UInt8}

theorem PlainName.of_plainAttributes (valid : AttrName name) (commaFree : comma ∉ entry)
    (nulFree : 0 ∉ entry) (plain : Environment.plainAttributes name first entry = some attributes) :
    PlainName name first entry := by
  have found : ∃ lead rest, entry = lead ++ (name ++ rest) ∧ Blanks lead ∧
      (first = true → lead = []) := by
    rw [Environment.plainAttributes] at plain
    split at plain
    case isTrue starts =>
      obtain ⟨rest, cut⟩ := starts.1
      cases first with
      | true => exact ⟨[], rest, cut.symm, by simp [Blanks], fun _ => rfl⟩
      | false =>
        have whole : entry.takeWhile (· = blank) ++ skipSpaces entry = entry :=
          List.takeWhile_append_dropWhile
        refine ⟨entry.takeWhile (· = blank), rest, ?_, fun byte member => ?_, by simp⟩
        · change name ++ rest = skipSpaces entry at cut
          rw [cut, whole]
        · simpa using List.mem_takeWhile_imp member
    · cases plain
  obtain ⟨lead, rest, rfl, leading, atStart⟩ := found
  rw [valid.plainAttributes_cut leading atStart] at plain
  split at plain
  case isTrue ends =>
    let tail := rest.takeWhile (· = blank)
    have whole : tail ++ skipSpaces rest = rest := List.takeWhile_append_dropWhile
    have trailing : Blanks tail := fun byte member => by simpa using List.mem_takeWhile_imp member
    have stops : skipSpaces rest = [] ∨ (skipSpaces rest).head? = some colon := by
      cases next : skipSpaces rest with
      | nil => exact .inl rfl
      | cons byte more =>
        have member : byte ∈ lead ++ (name ++ rest) := by
          rw [← whole, next]
          simp
        rw [EndsName, nextByte, next] at ends
        rcases ends with isColon | isComma | isNul
        · exact .inr (congrArg some isColon)
        · exact absurd (isComma ▸ member) commaFree
        · exact absurd (isNul ▸ member) nulFree
    have free : colon ∉ lead ++ (name ++ tail) := by
      simp only [List.mem_append, not_or]
      exact ⟨fun member => absurd (leading colon member) (by decide),
        fun member => (valid.bytes colon member).2.1 rfl,
        fun member => absurd (trailing colon member) (by decide)⟩
    have cut : lead ++ (name ++ rest) = (lead ++ (name ++ tail)) ++ skipSpaces rest := by
      rw [List.append_assoc, List.append_assoc, whole]
    exact ⟨lead, tail, by rw [cut, entryName_cut free stops], leading, trailing, atStart⟩
  · cases plain

/-- Attributes that both readers cut out alike: a word, blanks before it and white
space that begins with a blank after it. -/
def Readable (attributes : List UInt8) : Prop :=
  ∃ lead word tail, attributes = lead ++ (word ++ tail) ∧ Blanks lead ∧ blank ∉ word ∧
    Trim.Tight isspace word ∧ (tail = [] ∨ word ≠ [] ∧ tail.head? = some blank) ∧
    ∀ byte ∈ tail, isspace byte = true

theorem Readable.plainText_eq (commaFree : comma ∉ attributes) (readable : Readable attributes) :
    plainText attributes = strim attributes := by
  obtain ⟨lead, word, tail, rfl, leading, blankFree, tight, follows, trailing⟩ := readable
  have walked : strim (lead ++ (word ++ tail)) = word :=
    tight.trim_around (fun byte => leading.isspace) trailing
  rw [walked, plainText, skipSpaces_blanks leading]
  cases word with
  | nil =>
    rcases follows with empty | more
    · rw [empty]
      rfl
    · exact absurd rfl more.1
  | cons byte word =>
    have starts : byte ≠ blank := fun same => blankFree (by simp [same])
    rw [List.cons_append, skipSpaces, List.dropWhile_cons_of_neg (by simpa using starts),
      ← List.cons_append]
    apply Trim.takeWhile_cut
    · intro other member
      have notComma : other ≠ comma := by
        rintro rfl
        exact commaFree (List.mem_append_right _ (List.mem_append_left _ member))
      have notBlank : other ≠ blank := by
        rintro rfl
        exact blankFree member
      simp [notComma, notBlank]
    · intro other head
      rcases follows with empty | ⟨-, isBlank⟩
      · rw [empty] at head
        cases head
      · rw [isBlank] at head
        cases head
        simp

theorem plainText_cut (commaFree : comma ∉ attributes) :
    ∃ lead tail, attributes = lead ++ (plainText attributes ++ tail) ∧ Blanks lead ∧
      (tail = [] ∨ plainText attributes ≠ [] ∧ tail.head? = some blank) := by
  have whole : attributes.takeWhile (· = blank) ++ skipSpaces attributes = attributes :=
    List.takeWhile_append_dropWhile
  let ordinary : UInt8 → Bool := fun byte => byte ≠ comma && byte ≠ blank
  have cut : plainText attributes ++ (skipSpaces attributes).dropWhile ordinary =
      skipSpaces attributes := List.takeWhile_append_dropWhile
  refine ⟨attributes.takeWhile (· = blank), (skipSpaces attributes).dropWhile ordinary,
    by rw [cut, whole], fun byte member => by simpa using List.mem_takeWhile_imp member, ?_⟩
  cases rest : (skipSpaces attributes).dropWhile ordinary with
  | nil => exact .inl rfl
  | cons byte tail =>
    have stops := List.head?_dropWhile_not ordinary (skipSpaces attributes)
    rw [rest] at stops cut
    have member : byte ∈ attributes := by
      rw [← whole, ← cut]
      simp
    have notComma : byte ≠ comma := fun same => commaFree (same ▸ member)
    have isBlank : byte = blank := by simpa [ordinary, notComma] using stops
    refine .inr ⟨fun empty => ?_, by rw [isBlank]; rfl⟩
    rw [empty] at cut
    have skipped : attributes.dropWhile (· = blank) = byte :: tail := cut.symm
    have first := List.head?_dropWhile_not (fun byte => decide (byte = blank)) attributes
    rw [skipped] at first
    simp [isBlank] at first

theorem Readable.of_plainText (commaFree : comma ∉ attributes)
    (same : plainText attributes = strim attributes) : Readable attributes := by
  obtain ⟨lead, tail, whole, leading, follows⟩ := plainText_cut commaFree
  have blankFree : blank ∉ plainText attributes := fun member => by
    simpa using List.mem_takeWhile_imp member
  have tight : Trim.Tight isspace (plainText attributes) := by
    rw [same]
    exact Trim.trim_tight
  refine ⟨lead, _, tail, whole, leading, blankFree, tight, follows, ?_⟩
  rcases follows with empty | ⟨nonempty, -⟩
  · rw [empty]
    exact fun byte member => absurd member List.not_mem_nil
  · -- both cuts stop at the first byte of the word, so they leave the same tail
    have cut := @Trim.trim_cut _ isspace attributes
    obtain ⟨spaces, trailing, around, spaced, trailed⟩ := cut
    change attributes = spaces ++ (strim attributes ++ trailing) at around
    rw [← same] at around
    have stops (rest : List UInt8) : ∀ byte, (plainText attributes ++ rest).head? = some byte →
        isspace byte = false := by
      intro byte head
      rw [List.head?_append_of_ne_nil _ nonempty] at head
      exact tight.1 byte head
    have sameLead : lead = spaces := by
      rw [← Trim.takeWhile_cut (fun byte => leading.isspace) (stops tail), ← whole,
        ← Trim.takeWhile_cut spaced (stops trailing), ← around]
    rw [sameLead] at whole
    have sameTail : tail = trailing :=
      List.append_cancel_left (List.append_cancel_left (whole.symm.trans around))
    rw [sameTail]
    exact trailed

def ReadableEntry (entry : List UInt8) : Prop :=
  ∀ attributes, entryAttributes entry = some attributes → Readable attributes

theorem plainWord_eq_iff (commaFree : comma ∉ entry) :
    plainWord entry = walkedAttributes entry ↔ ReadableEntry entry := by
  rw [plainWord, walkedAttributes, ReadableEntry]
  rcases entry_cut entry with single | ⟨attributes, has, cut⟩
  · simp [single.1]
  · have free : comma ∉ attributes := fun member => commaFree (by rw [cut]; simp [member])
    rw [has]
    simp only [Option.map_some, Option.getD_some, Option.some.injEq, forall_eq']
    exact ⟨Readable.of_plainText free, Readable.plainText_eq free⟩

/-! ## The last entry of a name -/

instance (name entry : List UInt8) : Decidable (Named name entry) :=
  inferInstanceAs (Decidable (_ = _))

def lastNamed (name : List UInt8) : Bool → List (List UInt8) → Option (List UInt8) :=
  lastRead fun _ entry => if Named name entry then some (walkedAttributes entry) else none

/-- The last plain entry of a list has these attributes. -/
def PlainLast (name : List UInt8) (first : Bool) (entries : List (List UInt8))
    (attributes : List UInt8) : Prop :=
  ∃ earlier entry later, entries = earlier ++ entry :: later ∧
    PlainName name (first && earlier.isEmpty) entry ∧ plainWord entry = attributes ∧
    ∀ other ∈ later, ¬ PlainName name false other

/-- The last entry of the name is plain and has readable attributes, or it is passed over
for an earlier one that happens to have the same attributes. -/
def ReadAlike (name : List UInt8) (first : Bool) (entries : List (List UInt8)) : Prop :=
  ∀ earlier entry later, entries = earlier ++ entry :: later → Named name entry →
    (∀ other ∈ later, ¬ Named name other) →
    (PlainName name (first && earlier.isEmpty) entry ∧ ReadableEntry entry) ∨
      (¬ PlainName name (first && earlier.isEmpty) entry ∧
        PlainLast name first earlier (walkedAttributes entry))

def Clean (entries : List (List UInt8)) : Prop :=
  ∀ entry ∈ entries, comma ∉ entry ∧ 0 ∉ entry

theorem attrEntries_clean (nulFree : 0 ∉ text) : Clean (attrEntries text) := by
  induction text with
  | nil => simp [Clean, attrEntries]
  | cons byte text induction =>
    simp only [List.mem_cons, not_or] at nulFree
    have clean := induction nulFree.2
    rw [attrEntries]
    split
    case isTrue =>
      intro entry member
      cases member with
      | head => simp
      | tail _ member => exact clean entry member
    case isFalse ordinary =>
      cases entries : attrEntries text with
      | nil => simp [Clean, nulFree.1, Ne.symm ordinary]
      | cons entry entries' =>
        rw [entries] at clean
        intro other member
        cases member with
        | head =>
          have rest := clean entry List.mem_cons_self
          simp [rest, nulFree.1, Ne.symm ordinary]
        | tail _ member => exact clean other (List.mem_cons_of_mem _ member)

theorem plainAttributes_eq_none_iff (valid : AttrName name) (clean : comma ∉ entry ∧ 0 ∉ entry) :
    plainAttributes name first entry = none ↔ ¬ PlainName name first entry := by
  constructor
  · intro none plain
    rw [plain.plainAttributes valid] at none
    cases none
  · intro notPlain
    cases plain : plainAttributes name first entry with
    | none => rfl
    | some attributes =>
      exact absurd (PlainName.of_plainAttributes valid clean.1 clean.2 plain) notPlain

variable {entries : List (List UInt8)}

theorem lastPlain_eq_some_iff (valid : AttrName name) (clean : Clean entries) :
    lastPlain name first entries = some attributes ↔ PlainLast name first entries attributes := by
  rw [lastPlain, lastRead_eq_some_iff]
  constructor
  · rintro ⟨earlier, entry, later, cut, found, none⟩
    have cleanEntry := clean entry (by rw [cut]; simp)
    have plain := PlainName.of_plainAttributes valid cleanEntry.1 cleanEntry.2 found
    rw [plain.plainAttributes valid] at found
    refine ⟨earlier, entry, later, cut, plain, Option.some.inj found, fun other member => ?_⟩
    have cleanOther := clean other (by rw [cut]; simp [member])
    exact (plainAttributes_eq_none_iff valid cleanOther).mp
      (lastRead_false_eq_none_iff.mp none other member)
  · rintro ⟨earlier, entry, later, cut, plain, rfl, notPlain⟩
    refine ⟨earlier, entry, later, cut, plain.plainAttributes valid,
      lastRead_false_eq_none_iff.mpr fun other member => ?_⟩
    have cleanOther := clean other (by rw [cut]; simp [member])
    exact (plainAttributes_eq_none_iff valid cleanOther).mpr (notPlain other member)

theorem lastNamed_first (name : List UInt8) (first : Bool) (entries : List (List UInt8)) :
    lastNamed name first entries = lastNamed name false entries := by
  cases entries with
  | nil => rfl
  | cons entry entries => rfl

theorem lastNamed_eq_some_iff : lastNamed name first entries = some attributes ↔
      ∃ earlier entry later, entries = earlier ++ entry :: later ∧ Named name entry ∧
        walkedAttributes entry = attributes ∧ ∀ other ∈ later, ¬ Named name other := by
  rw [lastNamed, lastRead_eq_some_iff]
  simp only [lastRead_false_eq_none_iff, Option.ite_none_right_eq_some, Option.some.injEq,
    ite_eq_right_iff, reduceCtorEq, imp_false, and_assoc]

theorem lastPlain_cut (valid : AttrName name)
    (clean : Clean (earlier ++ entry :: later)) (unnamed : ∀ other ∈ later, ¬ Named name other) :
    lastPlain name first (earlier ++ entry :: later) =
      (plainAttributes name (first && earlier.isEmpty) entry).or
        (lastPlain name first earlier) := by
  have none : lastRead (plainAttributes name) false later = none :=
    lastRead_false_eq_none_iff.mpr fun other member => by
      have cleanOther := clean other (by simp [member])
      exact (plainAttributes_eq_none_iff valid cleanOther).mpr
        fun plain => unnamed other member (plain.named valid)
  rw [lastPlain, lastRead_append, lastRead, none, Option.none_or]

theorem lastPlain_eq_lastNamed_iff (valid : AttrName name) (clean : Clean entries) (first : Bool) :
    lastPlain name first entries = lastNamed name first entries ↔ ReadAlike name first entries := by
  constructor
  · rintro same earlier entry later rfl named unnamed
    have cleanEntry := clean entry (by simp)
    have cleanEarlier : Clean earlier := fun other member => clean other (by simp [member])
    rw [lastNamed_eq_some_iff.mpr ⟨earlier, entry, later, rfl, named, rfl, unnamed⟩,
      lastPlain_cut valid clean unnamed] at same
    by_cases plain : PlainName name (first && earlier.isEmpty) entry
    · rw [plain.plainAttributes valid, Option.some_or] at same
      exact .inl ⟨plain, (plainWord_eq_iff cleanEntry.1).mp (Option.some.inj same)⟩
    · rw [(plainAttributes_eq_none_iff valid cleanEntry).mpr plain, Option.none_or] at same
      exact .inr ⟨plain, (lastPlain_eq_some_iff valid cleanEarlier).mp same⟩
  · intro alike
    cases found : lastNamed name first entries with
    | none =>
      cases plain : lastPlain name first entries with
      | none => rfl
      | some attributes =>
        obtain ⟨earlier, entry, later, rfl, named, -⟩ :=
          (lastPlain_eq_some_iff valid clean).mp plain
        rw [lastNamed_first, lastNamed, lastRead_false_eq_none_iff] at found
        have unnamed := found entry (by simp)
        rw [if_pos (named.named valid)] at unnamed
        cases unnamed
    | some attributes =>
      obtain ⟨earlier, entry, later, rfl, named, rfl, unnamed⟩ := lastNamed_eq_some_iff.mp found
      have cleanEntry := clean entry (by simp)
      have cleanEarlier : Clean earlier := fun other member => clean other (by simp [member])
      rw [lastPlain_cut valid clean unnamed]
      rcases alike earlier entry later rfl named unnamed with ⟨plain, readable⟩ | ⟨plain, repeated⟩
      · rw [plain.plainAttributes valid, Option.some_or,
          (plainWord_eq_iff cleanEntry.1).mpr readable]
      · rw [(plainAttributes_eq_none_iff valid cleanEntry).mpr plain, Option.none_or]
        exact (lastPlain_eq_some_iff valid cleanEarlier).mpr repeated

/-- A callback that keeps its calls, the newest first; a missing string is an empty one to
the callbacks of the source. -/
def recordCall (name : CString) (attributes : Option CString)
    (calls : List (CString × CString)) : Int × List (CString × CString) :=
  (0, (name, attributes.getD (.ofBytes [])) :: calls)

def lastCall (name attrList : CString) : Option CString :=
  (envAttrWalk recordCall (some attrList) []).2.lookup name

theorem walkEntry_recordCall (entry : List UInt8) (calls : List (CString × CString)) :
    walkEntry recordCall entry calls = (0, if strim (entryName entry) = [] then calls else
        (.ofBytes (strim (entryName entry)), .ofBytes (walkedAttributes entry)) :: calls) := by
  rw [walkEntry]
  split
  · rfl
  · rw [recordCall, walkedAttributes]
    cases entryAttributes entry with
    | none => rfl
    | some attributes => rfl

theorem named_iff {name : CString} {entry : List UInt8} (nulFree : 0 ∉ entry) :
    Named name.bytes entry ↔ name = .ofBytes (strim (entryName entry)) := by
  have free : 0 ∉ strim (entryName entry) := fun member =>
    nulFree ((List.takeWhile_sublist _).subset (Trim.mem_of_mem_trim member))
  rw [Named, CString.ext_iff, CString.ofBytes_bytes free, eq_comm]

theorem walkEntries_lookup {name : CString} (valid : AttrName name.bytes) (clean : Clean entries)
    (first : Bool) (calls : List (CString × CString)) :
    (walkEntries recordCall entries calls).2.lookup name =
      ((lastNamed name.bytes first entries).map .ofBytes).or (calls.lookup name) := by
  induction entries generalizing first calls with
  | nil => rfl
  | cons entry entries induction =>
    have cleanRest : Clean entries := fun other member =>
      clean other (List.mem_cons_of_mem _ member)
    rw [walkEntries, walkEntry_recordCall]
    dsimp only
    rw [if_neg (by decide), induction cleanRest false, lastNamed, lastRead, ← lastNamed]
    cases lastNamed name.bytes false entries with
    | some attributes => rfl
    | none =>
      have named := @named_iff name entry (clean entry List.mem_cons_self).2
      rw [Option.none_or, Option.map_none, Option.none_or]
      by_cases isNamed : Named name.bytes entry
      · have nonempty : strim (entryName entry) ≠ [] := by
          rw [isNamed]
          exact valid.nonempty
        rw [if_neg nonempty, if_pos isNamed, ← named.mp isNamed, List.lookup_cons_self]
        rfl
      · rw [if_neg isNamed, Option.map_none, Option.none_or]
        split
        · rfl
        · have other : (name == CString.ofBytes (strim (entryName entry))) = false :=
            beq_false_of_ne fun same => isNamed (named.mpr same)
          rw [List.lookup_cons, other]

/-! ## What is read stands in the list -/

theorem mem_of_mem_plainWord (member : byte ∈ plainWord entry) : byte ∈ entry := by
  rw [plainWord] at member
  rcases entry_cut entry with single | ⟨attributes, has, cut⟩
  · rw [single.1] at member
    cases member
  · rw [has] at member
    have kept : byte ∈ attributes :=
      (List.dropWhile_sublist _).subset ((List.takeWhile_sublist _).subset member)
    rw [cut]
    simp [kept]

theorem mem_of_mem_walkedAttributes (member : byte ∈ walkedAttributes entry) : byte ∈ entry := by
  rw [walkedAttributes] at member
  rcases entry_cut entry with single | ⟨attributes, has, cut⟩
  · rw [single.1] at member
    cases member
  · rw [has] at member
    have kept : byte ∈ attributes := Trim.mem_of_mem_trim member
    rw [cut]
    simp [kept]

theorem lastPlain_nulFree (valid : AttrName name) (clean : Clean entries)
    (found : lastPlain name first entries = some attributes) :
    0 ∉ attributes := by
  obtain ⟨earlier, entry, later, rfl, -, rfl, -⟩ := (lastPlain_eq_some_iff valid clean).mp found
  exact fun member => (clean entry (by simp)).2 (mem_of_mem_plainWord member)

theorem lastNamed_nulFree (clean : Clean entries)
    (found : lastNamed name first entries = some attributes) : 0 ∉ attributes := by
  obtain ⟨earlier, entry, later, rfl, -, rfl, -⟩ := lastNamed_eq_some_iff.mp found
  exact fun member => (clean entry (by simp)).2 (mem_of_mem_walkedAttributes member)

theorem ofBytes_injective (leftFree : 0 ∉ left) (rightFree : 0 ∉ right)
    (same : CString.ofBytes left = CString.ofBytes right) : left = right := by
  rw [← CString.ofBytes_bytes leftFree, same, CString.ofBytes_bytes rightFree]

/-- When the two readers of a list agree on a name. The byte `guard` stands in front of
the list, and of blanks there. -/
theorem readers_agree_iff {attrList name : CString} (valid : AttrName name.bytes)
    {before : List UInt8} {guard : UInt8} (front : skipBack before.reverse = .ok guard) :
    (∀ attributes, envAttrLookup before (some attrList) name = .ok (0, some attributes) ↔
      lastCall name attrList = some attributes) ↔
      ReadAlike name.bytes (guard ≠ comma) (attrEntries attrList.bytes) := by
  have clean := attrEntries_clean attrList.nulFree
  have walked : lastCall name attrList = (lastNamed name.bytes (guard ≠ comma)
      (attrEntries attrList.bytes)).map .ofBytes := by
    have looked := walkEntries_lookup valid clean (guard ≠ comma) []
    rw [List.lookup_nil, Option.or_none] at looked
    exact looked
  rw [← lastPlain_eq_lastNamed_iff valid clean, envAttrLookup_eq valid front, walked]
  cases plain : lastPlain name.bytes (guard ≠ comma) (attrEntries attrList.bytes) with
  | none =>
    cases found : lastNamed name.bytes (guard ≠ comma) (attrEntries attrList.bytes) with
    | none => simp
    | some attributes => simp
  | some looked =>
    cases found : lastNamed name.bytes (guard ≠ comma) (attrEntries attrList.bytes) with
    | none => simp
    | some attributes =>
      have injective := ofBytes_injective (lastPlain_nulFree valid clean plain)
        (lastNamed_nulFree clean found)
      constructor
      · intro agree
        have same := (agree (.ofBytes looked)).mp rfl
        exact congrArg some (injective (Option.some.inj same).symm)
      · intro same other
        cases same
        simp

/-- The list `a:x, b : y`, looked at for `b`. -/
theorem readers_agree_iff_blanks : AttrName [98] ∧ skipBack [0] = .ok 0 ∧
      ReadAlike [98] true (attrEntries [97, 58, 120, 44, 32, 98, 32, 58, 32, 121]) := by
  have valid : AttrName [98] := ⟨by decide, by decide +kernel⟩
  have front : skipBack [0] = .ok 0 := rfl
  refine ⟨valid, front, ?_⟩
  have agree := @readers_agree_iff (.ofBytes [97, 58, 120, 44, 32, 98, 32, 58, 32, 121])
    (.ofBytes [98]) valid [0] 0 front
  have looked : envAttrLookup [0] (some (.ofBytes [97, 58, 120, 44, 32, 98, 32, 58, 32, 121]))
      (.ofBytes [98]) = .ok (0, some (.ofBytes [121])) := by decide
  have walked : lastCall (.ofBytes [98]) (.ofBytes [97, 58, 120, 44, 32, 98, 32, 58, 32, 121]) =
      some (.ofBytes [121]) := by decide
  apply agree.mp
  intro attributes
  rw [looked, walked]
  simp

/-- In ` a:x` the walk finds `a`, and the search does not: there is no comma to the left of the
blank. -/
theorem leading_blank_missed : AttrName [97] ∧ skipBack [0] = .ok 0 ∧
      envAttrLookup [0] (some (.ofBytes [32, 97, 58, 120])) (.ofBytes [97]) = .ok (2, none) ∧
      lastCall (.ofBytes [97]) (.ofBytes [32, 97, 58, 120]) = some (.ofBytes [120]) :=
  ⟨⟨by decide, by decide +kernel⟩, rfl, by decide, by decide⟩

end UBootV210.Environment
