import UBootV210.Environment.EnvAttrAgree
import UBootV210.Environment.EnvFlagsTable

/-! # The flags that a list gives to a variable

A new variable looks for its name in the lists, and a new list goes through its
entries. For well-formed lists both give the flags of the last entry for the name. -/

namespace UBootV210.Environment

open Occurrence

def envFlagsAttrMaxLen : Nat := 2

/-- An entry without white space whose attributes fit into the buffer of
`env_flags_init`. -/
structure WellFormedEntry (entry : List UInt8) : Prop where
  compact : ∀ byte ∈ entry, isspace byte = false
  short : ∀ attributes, entryAttributes entry = some attributes →
    attributes.length ≤ envFlagsAttrMaxLen

def WellFormedList (list : CString) : Prop :=
  ∀ entry ∈ attrEntries list.bytes, WellFormedEntry entry

def listed (list : Option CString) (name : CString) : Option (List UInt8) :=
  list.bind fun list => lastNamed name.bytes true (attrEntries list.bytes)

/-- The flags of a variable: those of the last entry in the list, or else in the static
list. -/
def flagsFor (config : EnvConfig) (list : Option CString) (name : CString) : Int :=
  match (listed list name).or (listed (some config.flagsListStatic) name) with
  | none => 0
  | some attributes => flagsOfValue (some (.ofBytes attributes))

/-! ## Looking a name up -/

theorem tight_of_compact (compact : ∀ byte ∈ text, isspace byte = false) :
    Trim.Tight isspace text :=
  ⟨fun byte head => compact byte (List.mem_of_mem_head? head),
    fun byte last => compact byte (List.mem_of_mem_getLast? last)⟩

namespace WellFormedEntry

variable {entry : List UInt8}

theorem plainName (wellFormed : WellFormedEntry entry) (named : Named name entry) :
    PlainName name first entry := by
  have compact : ∀ byte ∈ entryName entry, isspace byte = false := fun byte member =>
    wellFormed.compact byte ((List.takeWhile_sublist _).subset member)
  have same : strim (entryName entry) = entryName entry :=
    (Trim.trim_eq_self_iff _).mpr (tight_of_compact compact)
  have isName : entryName entry = name := same.symm.trans named
  exact ⟨[], [], by simp [isName], by simp [Blanks], by simp [Blanks], fun _ => rfl⟩

theorem readable (wellFormed : WellFormedEntry entry) : ReadableEntry entry := by
  intro attributes has
  have compact : ∀ byte ∈ attributes, isspace byte = false := by
    intro byte member
    apply wellFormed.compact
    rcases entry_cut entry with ⟨without, -⟩ | ⟨other, having, cut⟩
    · rw [has] at without
      cases without
    · rw [has] at having
      cases having
      rw [cut]
      simp [member]
  refine ⟨[], attributes, [], by simp, by simp [Blanks], ?_, tight_of_compact compact, .inl rfl,
    by simp⟩
  intro member
  have space := compact blank member
  cases space

end WellFormedEntry

theorem WellFormedList.readAlike (wellFormed : WellFormedList list) :
    ReadAlike name first (attrEntries list.bytes) := by
  intro earlier entry later cut named _
  have formed := wellFormed entry (by rw [cut]; simp)
  exact .inl ⟨formed.plainName named, formed.readable⟩

def EnvConfig.Guarded (config : EnvConfig) : Prop :=
  ∀ list, ∃ byte, skipBack (config.front list).reverse = .ok byte

variable {name : CString}

theorem attrLookup_eq (guarded : config.Guarded)
    (wellFormed : WellFormedList list) (valid : AttrName name.bytes) :
    attrLookup config list name = (listed (some list) name).map .ofBytes := by
  obtain ⟨byte, front⟩ := guarded list
  have same := (lastPlain_eq_lastNamed_iff valid (attrEntries_clean list.nulFree)
    (byte ≠ comma)).mpr wellFormed.readAlike
  have found : listed (some list) name =
      lastNamed name.bytes (byte ≠ comma) (attrEntries list.bytes) := by
    change lastNamed name.bytes true _ = _
    rw [lastNamed_first, lastNamed_first name.bytes (decide (byte ≠ comma))]
  rw [attrLookup, envAttrLookup_eq valid front, same, found]
  cases lastNamed name.bytes (byte ≠ comma) (attrEntries list.bytes) with
  | none => rfl
  | some attributes => rfl

theorem envFlagsInit_eq (guarded : config.Guarded) (static : WellFormedList config.flagsListStatic)
    (wellFormed : ∀ text, list = some text → WellFormedList text)
    (key : entry.key = some name) (valid : AttrName name.bytes) (clear : entry.flags = 0) :
    envFlagsInit config list entry = flagsFor config list name := by
  have looked : envFlagsLookup config list name =
      ((listed list name).or (listed (some config.flagsListStatic) name)).map .ofBytes := by
    rw [envFlagsLookup, listLookup, attrLookup_eq guarded static valid]
    cases list with
    | none => rfl
    | some text =>
      rw [Option.bind_some, attrLookup_eq guarded (wellFormed text rfl) valid]
      cases listed (some text) name with
      | none => rfl
      | some attributes => rfl
  rw [envFlagsInit, key, Option.bind_some, looked, flagsFor, clear]
  cases (listed list name).or (listed (some config.flagsListStatic) name) with
  | none => rfl
  | some attributes => rfl

theorem walkEntry_flags (config : EnvConfig) (valid : AttrName name.bytes)
    (nulFree : 0 ∉ entry) (attributes : Attributes) :
    (walkEntry ((flagsAttribute config).assignStep (some name)) entry attributes).2 =
      if Named name.bytes entry then
        { attributes with flags := flagsOfValue (some (.ofBytes (walkedAttributes entry))) }
      else
        attributes := by
  have named := @named_iff name entry nulFree
  rw [walkEntry]
  by_cases isNamed : Named name.bytes entry
  · have nonempty : strim (entryName entry) ≠ [] := by
      rw [isNamed]
      exact valid.nonempty
    rw [if_neg nonempty, if_pos isNamed, ← named.mp isNamed]
    simp only [ListedAttribute.assignStep, if_true, flagsAttribute, walkedAttributes]
    cases entryAttributes entry with
    | none => rfl
    | some value => rfl
  · have other : ¬ some name = some (CString.ofBytes (strim (entryName entry))) := fun same =>
      isNamed (named.mpr (Option.some.inj same))
    split
    · rfl
    · simp only [ListedAttribute.assignStep, other, if_false]

theorem walkEntries_flags (config : EnvConfig) (valid : AttrName name.bytes)
    (clean : Clean entries) (first : Bool) (attributes : Attributes) :
    (walkEntries ((flagsAttribute config).assignStep (some name)) entries attributes).2.flags =
      match lastNamed name.bytes first entries with
      | none => attributes.flags
      | some value => flagsOfValue (some (.ofBytes value)) := by
  induction entries generalizing first attributes with
  | nil => rfl
  | cons entry entries induction =>
    have cleanRest : Clean entries := fun other member =>
      clean other (List.mem_cons_of_mem _ member)
    rw [ListedAttribute.walkEntries_assignStep, induction cleanRest false,
      walkEntry_flags config valid (clean entry List.mem_cons_self).2, lastNamed, lastRead,
      ← lastNamed]
    cases lastNamed name.bytes false entries with
    | some value => rfl
    | none =>
      rw [Option.none_or]
      by_cases isNamed : Named name.bytes entry
      · simp only [isNamed, if_true]
      · simp only [isNamed, if_false]

theorem walkOf_flags (valid : AttrName name.bytes) :
    ((flagsAttribute config).walkOf (some name) list attributes).flags =
      match listed list name with
      | none => attributes.flags
      | some value => flagsOfValue (some (.ofBytes value)) := by
  cases list with
  | none => rfl
  | some list =>
    exact walkEntries_flags config valid (attrEntries_clean list.nulFree) true attributes

theorem onChangeOf_flags (key : entry.key = some name) (valid : AttrName name.bytes) :
    ((flagsAttribute config).onChangeOf value entry).flags = flagsFor config value name := by
  rw [ListedAttribute.onChangeOf, key, walkOf_flags valid, walkOf_flags valid, flagsFor]
  cases listed value name with
  | some attributes => rfl
  | none => rfl

end UBootV210.Environment
