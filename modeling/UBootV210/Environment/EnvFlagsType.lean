import UBootV210.Net.AddressText

/-! # The types of variables

An embedding of `_env_flags_validate_type` of common/env_flags.c. The values that it accepts
are compared with what the functions read that use them. -/

namespace UBootV210.Environment

open Library Net

/-! ## `_env_flags_validate_type` -/

inductive EnvFlagsVartype
  | string
  | decimal
  | hex
  | bool
  | ipaddr
  | macaddr
  | none
  deriving DecidableEq

def isHexPrefix (value : List UInt8) : Bool :=
  match value with
  | 48 :: 120 :: _ => true
  | 48 :: 88 :: _ => true
  | _ => false

def numberBase (hex : Bool) : Nat := if hex then 16 else 10

/-- The loop of `skip_num`. Without a limit the counter starts at -1. -/
def skipDigits (hex : Bool) : Option Nat → List UInt8 → List UInt8
  | some 0, value => value
  | _, [] => []
  | limit, character :: value =>
      if isDigitOf (numberBase hex) character then
        skipDigits hex (limit.map (· - 1)) value
      else
        character :: value

def skipNum (hex : Bool) (value : List UInt8) (maxDigits : Option Nat) : List UInt8 :=
  skipDigits hex maxDigits (if hex && isHexPrefix value then value.drop 2 else value)

def skipFields (hex : Bool) (maxDigits : Nat) (separator : UInt8) : Nat → List UInt8 → Bool
  | 0, _ => true
  | more + 1, cur =>
      let stop := skipNum hex cur (some maxDigits)
      if cur.length = stop.length then false
      else if hex && cur.length = stop.length + 2 && isHexPrefix cur then false
      else if more ≠ 0 && stop.head? ≠ some separator then false
      else if more = 0 && stop ≠ [] then false
      else skipFields hex maxDigits separator more (stop.drop 1)

/-- `_env_flags_validate_type`, which is true if it returns 0. -/
def envFlagsValidateType (value : List UInt8) (type : EnvFlagsVartype) : Bool :=
  match type with
  | .string => true
  | .decimal => skipNum false value none = []
  | .hex =>
      let stop := skipNum true value none
      if stop ≠ [] then false
      else ¬ (value.length = stop.length + 2 ∧ isHexPrefix value)
  | .bool =>
      match value with
      -- 1ytYT0nfNF
      | [first] => first ∈ [49, 121, 116, 89, 84, 48, 110, 102, 78, 70]
      | _ => false
  | .ipaddr => skipFields false 3 46 4 value
  | .macaddr => skipFields true 2 58 6 value
  | .none => false

/-! ## The numbers of an accepted text -/

inductive Start
  | nothing
  | lower
  | upper
  deriving DecidableEq

def Start.bytes : Start → List UInt8
  | .nothing => []
  | .lower => [48, 120]
  | .upper => [48, 88]

structure Field (hex : Bool) where
  start : Start
  digits : List UInt8
  some : digits ≠ []
  all : ∀ character ∈ digits, isDigitOf (numberBase hex) character = true
  plain : hex = false → start = .nothing

namespace Field

variable {hex : Bool}

def text (field : Field hex) : List UInt8 := field.start.bytes ++ field.digits

def number (field : Field hex) : Nat := digitsValue (numberBase hex) field.digits

end Field

variable {hex : Bool}

theorem skipDigits_cons (more : limit ≠ some 0) : skipDigits hex limit (character :: value) =
      if isDigitOf (numberBase hex) character then skipDigits hex (limit.map (· - 1)) value
      else character :: value := by
  rw [skipDigits]
  exact more

theorem skipDigits_split (hex : Bool) (limit : Option Nat) (value : List UInt8) :
    ∃ digits, value = digits ++ skipDigits hex limit value ∧
      (∀ character ∈ digits, isDigitOf (numberBase hex) character = true) ∧
      ∀ count, limit = some count → digits.length ≤ count := by
  have stays : ∀ text stop : List UInt8, text = stop → ∀ limit : Option Nat,
      ∃ digits, text = digits ++ stop ∧
        (∀ character ∈ digits, isDigitOf (numberBase hex) character = true) ∧
        ∀ count, limit = some count → digits.length ≤ count := by
    simp
  induction value generalizing limit with
  | nil =>
    refine stays _ _ ?_ limit
    cases limit with
    | none => rfl
    | some count =>
      cases count with
      | zero => rfl
      | succ count => rfl
  | cons character value induction =>
    by_cases more : limit = some 0
    · rw [more]
      exact stays _ _ rfl _
    · rw [skipDigits_cons more]
      split
      case isFalse => exact stays _ _ rfl limit
      case isTrue digit =>
        obtain ⟨digits, split, all, bound⟩ := induction (limit.map (· - 1))
        refine ⟨character :: digits, ?_, ?_, ?_⟩
        · rw [List.cons_append, ← split]
        · grind
        · grind

theorem exists_start (hex : Bool) (value : List UInt8) : ∃ start : Start, value = start.bytes ++
        (if hex && isHexPrefix value then value.drop 2 else value) ∧
      (start = .nothing ∨ start.bytes.length = 2 ∧ hex = true ∧ isHexPrefix value = true) := by
  by_cases prefixed : (hex && isHexPrefix value) = true
  · obtain ⟨isHex, starts⟩ := Bool.and_eq_true_iff.mp prefixed
    rw [if_pos prefixed]
    have cut := starts
    rw [isHexPrefix.eq_def] at cut
    split at cut
    · exact ⟨.lower, rfl, .inr ⟨rfl, isHex, rfl⟩⟩
    · exact ⟨.upper, rfl, .inr ⟨rfl, isHex, rfl⟩⟩
    · cases cut
  · rw [if_neg prefixed]
    exact ⟨.nothing, rfl, .inl rfl⟩

theorem skipNum_split (moves : value.length ≠ (skipNum hex value limit).length)
    (whole : ¬ (hex = true ∧ value.length = (skipNum hex value limit).length + 2 ∧
      isHexPrefix value = true)) :
    ∃ field : Field hex, value = field.text ++ skipNum hex value limit ∧
      ∀ count, limit = some count → field.digits.length ≤ count := by
  obtain ⟨start, front, kind⟩ := exists_start hex value
  obtain ⟨digits, back, all, bound⟩ := skipDigits_split hex limit
    (if hex && isHexPrefix value then value.drop 2 else value)
  have text : value = start.bytes ++ digits ++ skipNum hex value limit := by
    rw [List.append_assoc, skipNum, ← back]
    exact front
  have length := congrArg List.length text
  rw [List.length_append, List.length_append] at length
  have some : digits ≠ [] := by
    intro none
    rw [none, List.length_nil] at length
    rcases kind with nothing | ⟨two, isHex, starts⟩
    · rw [nothing] at length
      exact moves (by rw [length]; exact Nat.zero_add _)
    · exact whole ⟨isHex, by omega, starts⟩
  refine ⟨⟨start, digits, some, all, ?_⟩, text, bound⟩
  intro notHex
  rcases kind with nothing | ⟨_, isHex, _⟩
  · exact nothing
  · grind

/-! ## The addresses that are accepted -/

def joined {hex : Bool} (separator : UInt8) : List (Field hex) → List UInt8
  | [] => []
  | [field] => field.text
  | field :: other :: fields => field.text ++ separator :: joined separator (other :: fields)

variable {separator : UInt8}

def laterText (separator : UInt8) (fields : List (Field hex)) : List UInt8 :=
  if fields = [] then [] else separator :: joined separator fields

theorem joined_cons :
    joined separator (field :: fields) = field.text ++ laterText separator fields := by
  cases fields with
  | nil => exact (List.append_nil _).symm
  | cons other fields => rfl

theorem laterText_drop : (laterText separator fields).drop 1 = joined separator fields := by
  cases fields with
  | nil => rfl
  | cons field fields => rfl

theorem skipFields_next (accepted : skipFields hex maxDigits separator (more + 1) cur = true) :
    ∃ (field : Field hex) (stop : List UInt8), cur = field.text ++ stop ∧
      field.digits.length ≤ maxDigits ∧
      (more = 0 → stop = []) ∧ (more ≠ 0 → stop = separator :: stop.drop 1) ∧
      skipFields hex maxDigits separator more (stop.drop 1) = true := by
  rw [skipFields] at accepted
  split at accepted
  · cases accepted
  case isFalse moves =>
    split at accepted
    · cases accepted
    case isFalse whole =>
      obtain ⟨field, text, bound⟩ := skipNum_split moves (by simpa [and_assoc] using whole)
      split at accepted
      · cases accepted
      case isFalse separated =>
        split at accepted
        · cases accepted
        case isFalse ends =>
          refine ⟨field, _, text, bound maxDigits rfl, ?_, ?_, accepted⟩
          · grind
          · intro notLast
            have first : (skipNum hex cur (some maxDigits)).head? = some separator := by
              simpa [notLast] using separated
            obtain ⟨others, equal⟩ := List.head?_eq_some_iff.mp first
            rw [equal]
            rfl

theorem skipFields_accepts (accepted : skipFields hex maxDigits separator (more + 1) cur = true) :
    ∃ fields : List (Field hex), fields.length = more + 1 ∧ cur = joined separator fields ∧
      ∀ field ∈ fields, field.digits.length ≤ maxDigits := by
  induction more generalizing cur with
  | zero =>
    obtain ⟨field, stop, text, bound, ends, _⟩ := skipFields_next accepted
    refine ⟨[field], rfl, ?_, ?_⟩
    · rw [text, ends rfl, joined_cons]
      rfl
    · simp_all
  | succ more induction =>
    obtain ⟨field, stop, text, bound, _, separated, rest⟩ := skipFields_next accepted
    obtain ⟨fields, length, later, bounds⟩ := induction rest
    have some : fields ≠ [] := by
      rintro rfl
      cases length
    refine ⟨field :: fields, by rw [List.length_cons, length], ?_, ?_⟩
    · rw [joined_cons, laterText, if_neg some, ← later, ← separated (Nat.succ_ne_zero more)]
      exact text
    · intro other member
      rcases List.mem_cons.mp member with same | later
      · grind
      · exact bounds other later

/-! ## What is read -/

section

variable {hex : Bool} {separator : UInt8} {fields : List (Field hex)}

namespace Field

variable (field : Field hex) {rest : List UInt8}

theorem number_lt (short : field.digits.length ≤ count) : field.number < 16 ^ count := by
  have bound := digitsFrom_lt field.all 0
  have base : numberBase hex ≤ 16 := by
    rw [numberBase]
    split
    · exact le_refl 16
    · omega
  calc
    field.number < (0 + 1) * numberBase hex ^ field.digits.length := bound
    _ ≤ 16 ^ field.digits.length := by
      rw [Nat.zero_add, Nat.one_mul]
      exact Nat.pow_le_pow_left base _
    _ ≤ 16 ^ count := Nat.pow_le_pow_right (by omega) short

theorem numberBase_ne_zero : numberBase hex ≠ 0 := by
  grind [numberBase]

theorem strtoul (lower : field.start ≠ .upper) (ends : EndsNumber rest) :
    simpleStrtoul (field.text ++ rest) (numberBase hex) = (field.number % 2 ^ 32, rest) := by
  rw [text]
  cases start : field.start with
  | nothing => exact strtoulOfWidth_digits field.all ends numberBase_ne_zero
  | lower =>
    have isHex : hex = true := by
      by_contra notHex
      have plain := field.plain (Bool.eq_false_iff.mpr notHex)
      rw [start] at plain
      cases plain
    subst isHex
    exact strtoulOfWidth_lower field.all field.some ends
  | upper => exact absurd start lower

theorem strtoul_upper (upper : field.start = .upper) :
    simpleStrtoul (field.text ++ rest) (numberBase hex) = (0, 88 :: (field.digits ++ rest)) := by
  rw [text, upper]
  exact strtoulOfWidth_upper

theorem strtoul_text (lower : field.start ≠ .upper) :
    simpleStrtoul field.text (numberBase hex) = (field.number % 2 ^ 32, []) := by
  have read := field.strtoul lower endsNumber_nil
  rwa [List.append_nil] at read

theorem mem_digits (member : character ∈ field.digits) : hexDigit character ≠ none := by
  obtain ⟨value, found, _⟩ := exists_of_isDigitOf (field.all character member)
  simp [found]

theorem mem_text (member : character ∈ field.text) :
    hexDigit character ≠ none ∨ character = 120 ∨ character = 88 := by
  have before : ∀ start : Start, ∀ other ∈ start.bytes,
      hexDigit other ≠ none ∨ other = 120 ∨ other = 88 := by
    intro start
    cases start <;> decide +kernel
  rcases List.mem_append.mp member with start | inside
  · exact before _ _ start
  · exact .inl (field.mem_digits inside)

end Field

structure Separates (separator : UInt8) : Prop where
  notDigit : hexDigit separator = none
  notLower : separator ≠ 120
  notUpper : separator ≠ 88

theorem separates_dot : Separates 46 := ⟨by decide, by decide, by decide⟩

theorem separates_colon : Separates 58 := ⟨by decide, by decide, by decide⟩

theorem Separates.notMem (separates : Separates separator) {field : Field hex} :
    separator ∉ field.text := by
  intro member
  rcases field.mem_text member with digit | lower | upper
  · exact digit separates.notDigit
  · exact separates.notLower lower
  · exact separates.notUpper upper

theorem splitOn_joined (separates : Separates separator) (some : fields ≠ []) :
    (joined separator fields).splitOn separator = fields.map Field.text := by
  induction fields with
  | nil => exact absurd rfl some
  | cons field fields induction =>
    by_cases last : fields = []
    · rw [last]
      exact List.splitOn_eq_singleton separates.notMem
    · rw [joined_cons, laterText, if_neg last,
        List.splitOn_append_cons_self_of_not_mem separates.notMem, induction last,
        List.map_cons]

theorem readNumbers_joined_cons (separates : Separates separator) (lower : field.start ≠ .upper) :
    readNumbers (numberBase hex) (count + 1) (joined separator (field :: fields)) =
      (field.number % 2 ^ 32, laterText separator fields) ::
        readNumbers (numberBase hex) count (joined separator fields) := by
  have ends : EndsNumber (laterText separator fields) := by
    rw [laterText]
    split
    · exact endsNumber_nil
    · exact endsNumber_cons separates.notDigit separates.notLower _
  rw [joined_cons, readNumbers, field.strtoul lower ends, ← laterText_drop]

theorem readNumbers_joined_upper {field : Field hex} (upper : field.start = .upper) (count : Nat) :
    ∃ (stop : List UInt8) (digits : Field hex), digits.start ≠ .upper ∧
      readNumbers (numberBase hex) (count + 1) (joined separator (field :: fields)) =
        (0, 88 :: stop) ::
          readNumbers (numberBase hex) count (joined separator (digits :: fields)) := by
  refine ⟨field.digits ++ laterText separator fields,
    ⟨.nothing, field.digits, field.some, field.all, fun _ => rfl⟩, Start.noConfusion, ?_⟩
  rw [joined_cons, joined_cons, readNumbers, field.strtoul_upper upper]
  rfl

theorem readNumbers_ne_nil (some : count ≠ 0) : readNumbers base count text ≠ [] := by
  cases count with
  | zero => exact absurd rfl some
  | succ count =>
    exact List.cons_ne_nil _ _

theorem readNumbers_joined (separates : Separates separator) (some : fields ≠ [])
    (lower : ∀ field ∈ fields, field.start ≠ .upper) :
    (readNumbers (numberBase hex) fields.length (joined separator fields)).map Prod.fst =
        fields.map (fun field => field.number % 2 ^ 32) ∧
      (readNumbers (numberBase hex) fields.length (joined separator fields)).getLast?.map
        Prod.snd = Option.some [] := by
  induction fields with
  | nil => exact absurd rfl some
  | cons field fields induction =>
    rw [List.length_cons, readNumbers_joined_cons separates (lower field List.mem_cons_self)]
    by_cases last : fields = []
    · rw [last]
      exact ⟨rfl, rfl⟩
    · obtain ⟨numbers, ends⟩ := induction last
        fun other member => lower other (List.mem_cons_of_mem _ member)
      refine ⟨by rw [List.map_cons, numbers, List.map_cons], ?_⟩
      rw [List.getLast?_cons_of_ne_nil, ends]
      exact readNumbers_ne_nil (fun none => last (List.length_eq_zero_iff.mp none))

theorem lower_of_readNumbers (separates : Separates separator) {count : Nat}
    (few : count ≤ fields.length)
    (ends : (readNumbers (numberBase hex) count (joined separator fields)).getLast?.map
      Prod.snd = some []) :
    count = fields.length ∧ ∀ field ∈ fields, field.start ≠ .upper := by
  induction fields generalizing count with
  | nil =>
    simp_all
  | cons field fields induction =>
    -- What the calls behind a number without 0X say of the numbers behind it.
    have others : ∀ (first : Field hex) {more : Nat}, first.start ≠ .upper → more ≤ fields.length →
        (readNumbers (numberBase hex) (more + 1) (joined separator (first :: fields))).getLast?.map
          Prod.snd = some [] →
        more = fields.length ∧ ∀ other ∈ fields, other.start ≠ .upper := by
      intro first more lower fewer stops
      rw [readNumbers_joined_cons separates lower] at stops
      cases more with
      | zero =>
        by_cases last : fields = []
        · simp_all
        · rw [laterText, if_neg last] at stops
          cases stops
      | succ more =>
        exact induction fewer stops
    rw [List.length_cons] at few ⊢
    cases count with
    | zero => cases ends
    | succ count =>
      by_cases upper : field.start = .upper
      · obtain ⟨stop, digits, lower, calls⟩ :=
          @readNumbers_joined_upper hex separator fields field upper count
        rw [calls] at ends
        cases count with
        | zero => cases ends
        | succ count =>
          have all := (others digits lower (by omega) ends).1
          omega
      · grind

end

/-! ## Accepted values -/

theorem Field.take_text {field : Field true} :
    field.text.take 2 = [48, 88] ↔ field.start = .upper := by
  rw [Field.text]
  cases kind : field.start with
  | nothing =>
    refine iff_of_false ?_ (by decide)
    intro equal
    change field.digits.take 2 = [48, 88] at equal
    have member : (88 : UInt8) ∈ field.digits.take 2 := by
      rw [equal]
      decide
    exact field.mem_digits (List.mem_of_mem_take member) rfl
  | lower => exact iff_of_false (by intro equal; cases equal) (by decide)
  | upper => exact iff_of_true rfl rfl

theorem Field.hexNumber_text (field : Field true) : hexNumber field.text = field.number := by
  rw [Field.text]
  cases kind : field.start with
  | nothing =>
    change hexNumber field.digits = _
    rw [hexNumber.eq_def]
    split
    case h_1 digits start =>
      exact absurd rfl (@Field.mem_digits _ field 120 (by simp [start]))
    case h_2 digits start =>
      exact absurd rfl (@Field.mem_digits _ field 88 (by simp [start]))
    case h_3 => rfl
  | lower => rfl
  | upper => rfl

section

variable {value : CString}

theorem exists_fields_ipaddr (accepted : envFlagsValidateType value.bytes .ipaddr = true) :
    ∃ fields : List (Field false), fields.length = 4 ∧ value.bytes = joined 46 fields ∧
      ∀ field ∈ fields, field.digits.length ≤ 3 :=
  skipFields_accepts accepted

theorem ipNumbers_joined {fields : List (Field false)} (some : fields ≠ []) :
    ipNumbers (joined 46 fields) = fields.map Field.number := by
  have plain : ∀ field : Field false, digitsValue 10 field.text = field.number := by
    intro field
    rw [Field.text, field.plain rfl]
    rfl
  rw [ipNumbers, splitOn_joined separates_dot some, List.map_map]
  exact List.map_congr_left fun field _ => plain field

theorem map_number_mod {fields : List (Field hex)} (small : 16 ^ count ≤ 2 ^ 32)
    (short : ∀ field ∈ fields, field.digits.length ≤ count) :
    fields.map (fun field => field.number % 2 ^ 32) = fields.map Field.number := by
  apply List.map_congr_left
  intro field member
  exact Nat.mod_eq_of_lt ((field.number_lt (short field member)).trans_le small)

theorem ipOctets_stringToIp (accepted : envFlagsValidateType value.bytes .ipaddr = true) :
    ipOctets (stringToIp (some value)) = (ipNumbers value.bytes).map (· % 256) := by
  obtain ⟨fields, length, text, short⟩ := exists_fields_ipaddr accepted
  have some : fields ≠ [] := by
    rintro rfl
    cases length
  have lower : ∀ field ∈ fields, field.start ≠ .upper := by
    simp [Field.plain]
  obtain ⟨numbers, _⟩ := readNumbers_joined separates_dot some lower
  rw [length] at numbers
  obtain ⟨a, b, c, d, calls⟩ : ∃ a b c d, readNumbers 10 4 value.bytes = [a, b, c, d] :=
    ⟨_, _, _, _, rfl⟩
  change (readNumbers 10 4 _).map Prod.fst = _ at numbers
  rw [← text, map_number_mod (by decide) short, ← ipNumbers_joined some, ← text] at numbers
  rw [← numbers, stringToIp, calls, ipOctets_htonl]
  rfl

theorem macNumbers_joined {fields : List (Field true)} (some : fields ≠ []) :
    macNumbers (joined 58 fields) = fields.map Field.number := by
  rw [macNumbers, splitOn_joined separates_colon some, List.map_map]
  exact List.map_congr_left fun field _ => field.hexNumber_text

/-- All bytes of an Ethernet address are read: they are the numbers of the text, and the last
call gets to its end. -/
def ReadsAllBytes (value : CString) : Prop :=
  (ethParseEnetaddr (some value)).map UInt8.toNat = macNumbers value.bytes ∧
    (readNumbers 16 6 value.bytes).getLast?.map Prod.snd = some []

theorem readsAllBytes_iff (accepted : envFlagsValidateType value.bytes .macaddr = true) :
    ReadsAllBytes value ↔ ∀ field ∈ value.bytes.splitOn 58, field.take 2 ≠ [48, 88] := by
  obtain ⟨fields, length, text, short⟩ :
      ∃ fields : List (Field true), fields.length = 6 ∧ value.bytes = joined 58 fields ∧
        ∀ field ∈ fields, field.digits.length ≤ 2 := skipFields_accepts accepted
  have some : fields ≠ [] := by
    rintro rfl
    cases length
  have lower : (∀ field ∈ value.bytes.splitOn 58, field.take 2 ≠ [48, 88]) ↔
      ∀ field ∈ fields, field.start ≠ .upper := by
    rw [text, splitOn_joined separates_colon some, List.forall_mem_map]
    simp only [ne_eq, Field.take_text]
  rw [lower]
  constructor
  · rintro ⟨_, ends⟩
    rw [text] at ends
    exact (@lower_of_readNumbers true 58 fields separates_colon 6 (by omega) ends).2
  · intro all
    obtain ⟨numbers, ends⟩ := readNumbers_joined separates_colon some all
    rw [length] at numbers ends
    change (readNumbers 16 6 _).map Prod.fst = _ at numbers
    refine ⟨?_, by rw [text]; exact ends⟩
    have bytes : ethParseEnetaddr (Option.some value) =
        ((readNumbers 16 6 value.bytes).map Prod.fst).map UInt8.ofNat := by
      rfl
    rw [bytes, text, numbers, map_number_mod (by decide) short, macNumbers_joined some,
      List.map_map, List.map_map]
    apply List.map_congr_left
    intro field member
    exact UInt8.toNat_ofNat_of_lt' (field.number_lt (short field member))

theorem exists_field (ends : skipNum hex value.bytes none = [])
    (whole : ¬ (hex = true ∧ value.bytes.length = 2 ∧ isHexPrefix value.bytes = true)) :
    value.bytes = [] ∨ ∃ field : Field hex, value.bytes = field.text := by
  by_cases empty : value.bytes = []
  · exact .inl empty
  · have moves : value.bytes.length ≠ (skipNum hex value.bytes none).length := by
      simp_all
    obtain ⟨field, text, _⟩ := skipNum_split moves (by rw [ends]; exact whole)
    rw [ends, List.append_nil] at text
    exact .inr ⟨field, text⟩

theorem strtoul_decimal (accepted : envFlagsValidateType value.bytes .decimal = true) :
    (simpleStrtoul value.bytes 10).2 = [] := by
  have ends : skipNum false value.bytes none = [] := of_decide_eq_true accepted
  rcases exists_field ends (fun hex => Bool.false_ne_true hex.1) with empty | ⟨field, text⟩
  · rw [empty]
    rfl
  · have lower : field.start ≠ .upper := by
      rw [field.plain rfl]
      decide
    exact text ▸ congrArg Prod.snd (field.strtoul_text lower)

theorem strtoul_hex_iff (accepted : envFlagsValidateType value.bytes .hex = true) :
    (simpleStrtoul value.bytes 16).2 = [] ↔ value.bytes.take 2 ≠ [48, 88] := by
  rw [envFlagsValidateType] at accepted
  split at accepted
  · cases accepted
  case isFalse ends =>
    rw [not_not] at ends
    rw [ends, decide_eq_true_eq] at accepted
    rcases exists_field ends (fun hex => accepted ⟨hex.2.1, hex.2.2⟩) with empty | ⟨field, text⟩
    · rw [empty]
      exact iff_of_true rfl (by decide)
    · rw [text, ne_eq, Field.take_text]
      by_cases upper : field.start = .upper
      · have read := @Field.strtoul_upper _ field [] upper
        rw [List.append_nil] at read
        change simpleStrtoul field.text 16 = _ at read
        rw [read]
        exact iff_of_false (List.cons_ne_nil _ _) (not_not.mpr upper)
      · exact iff_of_true (congrArg Prod.snd (field.strtoul_text upper)) upper

end

/-- A value that is accepted means what is read of it. -/
structure Means (value : CString) : Prop where
  decimal : envFlagsValidateType value.bytes .decimal = true → (simpleStrtoul value.bytes 10).2 = []
  hex : envFlagsValidateType value.bytes .hex = true → (simpleStrtoul value.bytes 16).2 = []
  ipaddr : envFlagsValidateType value.bytes .ipaddr = true →
    ipOctets (stringToIp (some value)) = ipNumbers value.bytes
  macaddr : envFlagsValidateType value.bytes .macaddr = true → ReadsAllBytes value

/-- This is so exactly if no number has 0X before it and the numbers of an IP address are
at most 255. -/
theorem means_iff (value : CString) : Means value ↔
    (envFlagsValidateType value.bytes .hex = true → value.bytes.take 2 ≠ [48, 88]) ∧
    (envFlagsValidateType value.bytes .ipaddr = true →
      ∀ number ∈ ipNumbers value.bytes, number ≤ 255) ∧
    (envFlagsValidateType value.bytes .macaddr = true →
      ∀ field ∈ value.bytes.splitOn 58, field.take 2 ≠ [48, 88]) := by
  have octets : envFlagsValidateType value.bytes .ipaddr = true →
      (ipOctets (stringToIp (some value)) = ipNumbers value.bytes ↔
        ∀ number ∈ ipNumbers value.bytes, number ≤ 255) := by
    intro accepted
    rw [ipOctets_stringToIp accepted]
    conv =>
      lhs
      rhs
      rw [← List.map_id (ipNumbers value.bytes)]
    rw [List.map_inj_left]
    constructor
    · grind
    · grind
  constructor
  · intro means
    exact ⟨fun accepted => (strtoul_hex_iff accepted).mp (means.hex accepted),
      fun accepted => (octets accepted).mp (means.ipaddr accepted),
      fun accepted => (readsAllBytes_iff accepted).mp (means.macaddr accepted)⟩
  · rintro ⟨hex, ipaddr, macaddr⟩
    exact ⟨strtoul_decimal, fun accepted => (strtoul_hex_iff accepted).mpr (hex accepted),
      fun accepted => (octets accepted).mpr (ipaddr accepted),
      fun accepted => (readsAllBytes_iff accepted).mpr (macaddr accepted)⟩

-- 0X10, 300.1.1.1 and 0X2:0:0:0:0:1
theorem means_fails : ¬ Means (.ofBytes [48, 88, 49, 48]) ∧
    ¬ Means (.ofBytes [51, 48, 48, 46, 49, 46, 49, 46, 49]) ∧
    ¬ Means (.ofBytes [48, 88, 50, 58, 48, 58, 48, 58, 48, 58, 48, 58, 49]) := by
  refine ⟨?_, ?_, ?_⟩
  · intro means
    exact absurd (means.hex (by decide +kernel)) (by decide +kernel)
  · intro means
    exact absurd (means.ipaddr (by decide +kernel)) (by decide +kernel)
  · intro means
    exact absurd (means.macaddr (by decide +kernel)).1 (by decide +kernel)

end UBootV210.Environment
