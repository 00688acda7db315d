import UBootV210.Foundation.CString

/-! # Correcting a sector in the SPL

An embedding of `nand_correct_data_8bit` and of the loop of
`nand_read_page_8bit` that calls it. Memory is addressed from the start of the
page buffer of the caller. -/

namespace UBootV210.Spl

def ECC_SIZE : Nat := 512

abbrev Memory := Nat → UInt8

structure EccReport where
  nfeccsecstat : UInt32
  erl0 : UInt32
  erl1 : UInt32
  erl2 : UInt32
  erl3 : UInt32
  erp0 : UInt32
  erp1 : UInt32

def flipByte (dat : Nat) (memory : Memory) (correction : Nat × UInt8) : Memory :=
  Function.update memory (dat + correction.1) (memory (dat + correction.1) ^^^ correction.2)

namespace EccReport

def errNo (report : EccReport) : Nat := (report.nfeccsecstat &&& 0x1f).toNat

/-- The statements of the cases 8 to 1, in the order of the source. -/
def corrections (report : EccReport) : List (Nat × UInt8) :=
  [(((report.erl3 >>> 16) &&& 0x3ff).toNat, ((report.erp1 >>> 24) &&& 0xff).toUInt8),
    ((report.erl3 &&& 0x3ff).toNat, ((report.erp1 >>> 16) &&& 0xff).toUInt8),
    (((report.erl2 >>> 16) &&& 0x3ff).toNat, ((report.erp1 >>> 8) &&& 0xff).toUInt8),
    ((report.erl2 &&& 0x3ff).toNat, (report.erp1 &&& 0xff).toUInt8),
    (((report.erl1 >>> 16) &&& 0x3ff).toNat, ((report.erp0 >>> 24) &&& 0xff).toUInt8),
    ((report.erl1 &&& 0x3ff).toNat, ((report.erp0 >>> 16) &&& 0xff).toUInt8),
    (((report.erl0 >>> 16) &&& 0x3ff).toNat, ((report.erp0 >>> 8) &&& 0xff).toUInt8),
    ((report.erl0 &&& 0x3ff).toNat, (report.erp0 &&& 0xff).toUInt8)]

/-- Each case falls through to the next one; more than eight errors are the default case. -/
def reported (report : EccReport) : List (Nat × UInt8) :=
  if report.errNo ≤ 8 then report.corrections.drop (8 - report.errNo) else []

def patternAt (report : EccReport) (location : Nat) : UInt8 :=
  ((report.reported.filter fun correction => correction.1 = location).map Prod.snd).foldr
    (· ^^^ ·) 0

end EccReport

def nandCorrectData8bit (report : EccReport) (dat : Nat) (memory : Memory) : Int × Memory :=
  (if report.errNo ≤ 8 then 0 else -1, report.reported.foldl (flipByte dat) memory)

def readSector (sector : Vector UInt8 ECC_SIZE) (buf : Nat) (memory : Memory) : Memory :=
  fun place => if buf ≤ place then (sector[place - buf]?).getD (memory place) else memory place

def readPageLoop (sectors : Nat → Vector UInt8 ECC_SIZE) (reports : Nat → EccReport) :
    Nat → Nat → Int → Memory → Int × Memory
  | 0, _, err, memory => (err, memory)
  | eccsteps + 1, step, err, memory =>
      let buf := ECC_SIZE * step
      let (ret, memory) :=
        nandCorrectData8bit (reports step) buf (readSector (sectors step) buf memory)
      readPageLoop sectors reports eccsteps (step + 1) (if ret < 0 then err + 1 else err) memory

/-- `nand_read_page_8bit` with what the chip sends and what the controller reports at each step. -/
def nandReadPage8bit (sectors : Nat → Vector UInt8 ECC_SIZE) (reports : Nat → EccReport)
    (memory : Memory) : Int × Memory :=
  readPageLoop sectors reports 4 0 0 memory

theorem foldl_flipByte (dat : Nat) (corrections : List (Nat × UInt8)) (memory : Memory)
    (location : Nat) :
    corrections.foldl (flipByte dat) memory (dat + location) = memory (dat + location) ^^^
      ((corrections.filter fun correction => correction.1 = location).map Prod.snd).foldr
        (· ^^^ ·) 0 := by
  induction corrections generalizing memory with
  | nil => simp
  | cons correction corrections induction =>
    rw [List.foldl_cons, induction, flipByte]
    by_cases here : correction.1 = location
    · subst here
      simp [UInt8.xor_assoc]
    · have other : dat + location ≠ dat + correction.1 := by omega
      rw [Function.update_of_ne other, List.filter_cons_of_neg (by simpa using here)]

variable {place : Nat}

theorem foldl_flipByte_below (corrections : List (Nat × UInt8)) (memory : Memory)
    (below : place < dat) :
    corrections.foldl (flipByte dat) memory place = memory place := by
  induction corrections generalizing memory with
  | nil => rfl
  | cons correction corrections induction =>
    have other : place ≠ dat + correction.1 := by omega
    rw [List.foldl_cons, induction, flipByte, Function.update_of_ne other]

section Sector

variable (report : EccReport) (memory : Memory)

theorem correct_above (dat location : Nat) :
    (nandCorrectData8bit report dat memory).2 (dat + location) =
      memory (dat + location) ^^^ report.patternAt location := foldl_flipByte ..

theorem correct_below (below : place < dat) :
    (nandCorrectData8bit report dat memory).2 place = memory place :=
  foldl_flipByte_below _ _ below

theorem xor_eq_self_iff (byte pattern : UInt8) : byte ^^^ pattern = byte ↔ pattern = 0 := by
  constructor
  · intro same
    have cancelled := congrArg (byte ^^^ ·) same
    simpa [← UInt8.xor_assoc] using cancelled
  · intro zero
    rw [zero, UInt8.xor_zero]

def KeepsOutside (dat : Nat) (memory corrected : Memory) : Prop :=
  ∀ place, ¬ (dat ≤ place ∧ place < dat + ECC_SIZE) → corrected place = memory place

/-- The locations of a report reach over the ECC bytes, which are not in the buffer:
their patterns are applied to the bytes behind the sector. -/
theorem correction_keeps_outside_iff (step : Nat) : KeepsOutside (ECC_SIZE * step) memory
        (nandCorrectData8bit report (ECC_SIZE * step) memory).2 ↔
      ∀ location, ECC_SIZE ≤ location → report.patternAt location = 0 := by
  constructor
  · intro keeps location outside
    have kept := keeps (ECC_SIZE * step + location) (by omega)
    rw [correct_above] at kept
    exact (xor_eq_self_iff _ _).mp kept
  · intro quiet place outside
    by_cases below : place < ECC_SIZE * step
    · exact correct_below report memory below
    · obtain ⟨location, rfl⟩ := Nat.exists_eq_add_of_le (Nat.le_of_not_lt below)
      rw [correct_above]
      exact (xor_eq_self_iff _ _).mpr (quiet location (by omega))

end Sector

/-- One error in the first ECC byte. -/
def eccByteReport : EccReport where
  nfeccsecstat := 1
  erl0 := 512
  erl1 := 0
  erl2 := 0
  erl3 := 0
  erp0 := 1
  erp1 := 0

/-- The byte behind the page buffer is flipped when the last sector is corrected. -/
theorem correction_flips_behind_page :
    (nandCorrectData8bit eccByteReport (ECC_SIZE * 3) fun _ => 0).2 2048 = 1 := by
  decide +kernel

section Page

variable (sectors : Nat → Vector UInt8 ECC_SIZE) (reports : Nat → EccReport)

theorem readSector_outside (outside : buf + ECC_SIZE ≤ place) :
    readSector sector buf memory place = memory place := by
  have behind : ¬ place - buf < ECC_SIZE := by omega
  rw [readSector, if_pos (by omega), getElem?_neg sector _ behind]
  rfl

theorem toNat_mask_lt {register : UInt32} : (register &&& 0x3ff).toNat < 1024 := by
  exact lt_of_le_of_lt Nat.and_le_right (by decide)

theorem EccReport.location_lt (report : EccReport) :
    ∀ correction ∈ report.reported, correction.1 < 1024 := by
  intro correction member
  rw [reported] at member
  split at member
  · have listed := List.mem_of_mem_drop member
    simp only [corrections, List.mem_cons, List.not_mem_nil, or_false] at listed
    rcases listed with rfl | rfl | rfl | rfl | rfl | rfl | rfl | rfl <;> exact toNat_mask_lt
  · cases member

theorem EccReport.patternAt_large (report : EccReport)
    (large : 1024 ≤ location) : report.patternAt location = 0 := by
  have none : report.reported.filter (fun correction => correction.1 = location) = [] := by
    apply List.filter_eq_nil_iff.mpr
    intro correction member
    have bound := report.location_lt correction member
    simp only [decide_eq_true_eq]
    omega
  rw [patternAt, none]
  rfl

def readStep (sector : Vector UInt8 ECC_SIZE) (report : EccReport) (step : Nat) (memory : Memory) :
    Memory :=
  (nandCorrectData8bit report (ECC_SIZE * step) (readSector sector (ECC_SIZE * step) memory)).2

theorem readStep_above (outside : ECC_SIZE ≤ location) :
    readStep sector report step memory (ECC_SIZE * step + location) =
      memory (ECC_SIZE * step + location) ^^^ report.patternAt location := by
  rw [readStep, correct_above, readSector_outside (by omega)]

/-- The first three sectors are corrected inside the page, even where their locations
are those of ECC bytes. -/
theorem readStep_behind (early : step < 3) (behind : 2048 ≤ place) :
    readStep sector report step memory place = memory place := by
  have size : ECC_SIZE = 512 := rfl
  have start : ECC_SIZE * step ≤ 1024 := by
    rw [size]
    omega
  obtain ⟨location, rfl⟩ : ∃ location, place = ECC_SIZE * step + location :=
    Nat.exists_eq_add_of_le (by omega)
  rw [readStep_above (by omega), report.patternAt_large (by omega)]
  exact UInt8.xor_zero

/-- Behind the page buffer a read leaves the patterns of the last report for the ECC
bytes. -/
theorem readPage_behind : (nandReadPage8bit sectors reports memory).2 (2048 + offset) =
      memory (2048 + offset) ^^^ (reports 3).patternAt (512 + offset) := by
  have steps : (nandReadPage8bit sectors reports memory).2 =
      readStep (sectors 3) (reports 3) 3 (readStep (sectors 2) (reports 2) 2
        (readStep (sectors 1) (reports 1) 1 (readStep (sectors 0) (reports 0) 0 memory))) := rfl
  have place : 2048 + offset = ECC_SIZE * 3 + (512 + offset) := by
    have size : ECC_SIZE = 512 := rfl
    omega
  rw [steps, place, readStep_above (Nat.le_add_right 512 offset), ← place,
    readStep_behind (by decide) (by omega), readStep_behind (by decide) (by omega),
    readStep_behind (by decide) (by omega)]

end Page

end UBootV210.Spl
