import UBootV210.Library.Number

/-! # Sizes in partition tables

`memsize_format` and `memsize_parse` of common/cmd_mtdparts.c. -/

namespace UBootV210.MtdParts

open Library

def memsizeFormat (size : UInt64) : List UInt8 :=
  if size % 0x40000000 = 0 then decimal (size / 0x40000000) ++ [103]
  else if size % 0x100000 = 0 then decimal (size / 0x100000) ++ [109]
  else if size % 0x400 = 0 then decimal (size / 0x400) ++ [107]
  else decimal size

/-- The `switch` of `memsize_parse`, which goes on from a unit to the smaller ones. -/
def memsizeUnit (ret : UInt64) (retptr : List UInt8) : UInt64 × List UInt8 :=
  match retptr with
  | [] => (ret, [])
  | unit :: rest =>
      if unit = 71 ∨ unit = 103 then (((ret <<< 10) <<< 10) <<< 10, rest)
      else if unit = 77 ∨ unit = 109 then ((ret <<< 10) <<< 10, rest)
      else if unit = 75 ∨ unit = 107 then (ret <<< 10, rest)
      else (ret, unit :: rest)

def memsizeParse (ptr : List UInt8) : UInt64 × List UInt8 :=
  let (value, retptr) := simpleStrtoull ptr 0
  memsizeUnit (UInt64.ofNat value) retptr

def EndsSize (rest : List UInt8) : Prop :=
  ∀ first others, rest = first :: others →
    hexDigit first = none ∧ first ∉ [71, 103, 77, 109, 75, 107]

variable {rest : List UInt8}

theorem EndsSize.stops (ends : EndsSize rest) : Stops rest := by
  intro first others start value found
  rw [(ends first others start).1] at found
  cases found

theorem stops_unit (notDigit : hexDigit unit = none) : Stops (unit :: rest) := by
  intro first others start value found
  cases start
  rw [notDigit] at found
  cases found

theorem memsizeParse_decimal (stops : Stops rest)
    (notHex : num = 0 → ∀ others, rest ≠ 120 :: others) :
    memsizeParse (decimal num ++ rest) = memsizeUnit num rest := by
  rw [memsizeParse, simpleStrtoull_decimal stops notHex]
  dsimp only
  rw [UInt64.ofNat_toNat]

theorem toNat_shiftLeft_ten {ret : UInt64} (fits : ret.toNat * 1024 < 2 ^ 64) :
    (ret <<< 10).toNat = ret.toNat * 1024 := by
  rw [UInt64.toNat_shiftLeft, Nat.shiftLeft_eq]
  exact Nat.mod_eq_of_lt fits

variable {size : UInt64}

theorem toNat_div_mul (exact : size % unit = 0) :
    (size / unit).toNat * unit.toNat = size.toNat := by
  rw [UInt64.toNat_div]
  apply Nat.div_mul_cancel
  apply Nat.dvd_of_mod_eq_zero
  rw [← UInt64.toNat_mod, exact]
  rfl

theorem giga_shiftLeft (exact : size % 0x40000000 = 0) :
    (((size / 0x40000000) <<< 10) <<< 10) <<< 10 = size := by
  have bound : size.toNat < 2 ^ 64 := size.toNat_lt
  have back : (size / 0x40000000).toNat * 0x40000000 = size.toNat := toNat_div_mul exact
  have first := @toNat_shiftLeft_ten (size / 0x40000000) (by omega)
  have second := @toNat_shiftLeft_ten ((size / 0x40000000) <<< 10) (by omega)
  have third := @toNat_shiftLeft_ten (((size / 0x40000000) <<< 10) <<< 10) (by omega)
  apply UInt64.toNat_inj.mp
  omega

theorem mega_shiftLeft (exact : size % 0x100000 = 0) :
    ((size / 0x100000) <<< 10) <<< 10 = size := by
  have bound : size.toNat < 2 ^ 64 := size.toNat_lt
  have back : (size / 0x100000).toNat * 0x100000 = size.toNat := toNat_div_mul exact
  have first := @toNat_shiftLeft_ten (size / 0x100000) (by omega)
  have second := @toNat_shiftLeft_ten ((size / 0x100000) <<< 10) (by omega)
  apply UInt64.toNat_inj.mp
  omega

theorem kilo_shiftLeft (exact : size % 0x400 = 0) : (size / 0x400) <<< 10 = size := by
  have bound : size.toNat < 2 ^ 64 := size.toNat_lt
  have back : (size / 0x400).toNat * 0x400 = size.toNat := toNat_div_mul exact
  have first := @toNat_shiftLeft_ten (size / 0x400) (by omega)
  apply UInt64.toNat_inj.mp
  omega

theorem memsizeUnit_of_ends (ends : EndsSize rest) : memsizeUnit ret rest = (ret, rest) := by
  cases rest with
  | nil => rfl
  | cons first others =>
    have notUnit := (ends first others rfl).2
    simp only [List.mem_cons, List.not_mem_nil, or_false, not_or] at notUnit
    simp [memsizeUnit, notUnit]

theorem memsizeParse_append (size : UInt64) {rest : List UInt8} (ends : EndsSize rest) :
    memsizeParse (memsizeFormat size ++ rest) = (size, rest) := by
  have unit : ∀ (char : UInt8) (num : UInt64), hexDigit char = none → char ≠ 120 →
      memsizeParse (decimal num ++ [char] ++ rest) = memsizeUnit num (char :: rest) := by
    intro char num notDigit notHex
    rw [List.append_assoc]
    apply memsizeParse_decimal (stops_unit notDigit)
    intro _ others start
    exact notHex (List.cons.inj start).1
  rw [memsizeFormat]
  split
  case isTrue exact =>
    rw [unit 103 _ (by decide) (by decide)]
    exact Prod.ext (giga_shiftLeft exact) rfl
  split
  case isTrue exact =>
    rw [unit 109 _ (by decide) (by decide)]
    exact Prod.ext (mega_shiftLeft exact) rfl
  split
  case isTrue exact =>
    rw [unit 107 _ (by decide) (by decide)]
    exact Prod.ext (kilo_shiftLeft exact) rfl
  case isFalse odd =>
    have positive : size ≠ 0 := by
      rintro rfl
      exact odd (by decide)
    rw [memsizeParse_decimal ends.stops fun zero => absurd zero positive, memsizeUnit_of_ends ends]

/-- A size that is written is read again, up to the end of the text. -/
theorem memsizeParse_memsizeFormat (size : UInt64) :
    memsizeParse (memsizeFormat size) = (size, []) := by
  have parsed := @memsizeParse_append size [] (by intro first others start; cases start)
  rw [List.append_nil] at parsed
  exact parsed

end UBootV210.MtdParts
