import UBootV210.Nand.SkipBadInverse

/-! # The blocks of the environment

An embedding of `writeenv` and `readenv` of `env_nand.c`. Both walk through the blocks
from an offset on, with offsets of 32 bits, and use the blocks that are not bad. -/

namespace UBootV210.Environment

open Nand

structure EnvArea where
  size : UInt32
  range : UInt32

section

variable {Chip : Type} (mtd : MtdInfo Chip) (config : EnvArea)

def pieceSize : UInt32 := if mtd.erasesize < config.size then mtd.erasesize else config.size

/-- A walk that comes around at 4 GiB has used a block, or goes on for ever. -/
def walkFuel : Nat := 2 ^ 32 / mtd.erasesize.toNat * (config.size.toNat + 1) + 1

def writeenvLoop (stop : UInt32) (buf : List UInt8) :
    Nat → UInt32 → UInt32 → UInt32 → Chip → Exec (Int × Chip)
  | 0, _, _, _, _ => .error .diverges
  | fuel + 1, offset, amountSaved, len, chip =>
      if amountSaved < config.size ∧ offset < stop then
        if mtdBlockIsbad mtd offset.toUInt64 ≠ 0 then
          writeenvLoop stop buf fuel (offset + mtd.erasesize) amountSaved len chip
        else
          let done := mtdWrite mtd chip offset.toUInt64 len (buf.drop amountSaved.toNat)
          if done.ret ≠ 0 then
            .ok (1, done.chip)
          else
            writeenvLoop stop buf fuel (offset + mtd.erasesize) (amountSaved + done.retlen)
              done.retlen done.chip
      else if amountSaved ≠ config.size then
        .ok (1, chip)
      else
        .ok (0, chip)

def writeenv (chip : Chip) (offset : UInt32) (buf : List UInt8) : Exec (Int × Chip) :=
  writeenvLoop mtd config (offset + config.range) buf (walkFuel mtd config) offset 0
    (pieceSize mtd config) chip

def storeAt (buf : List UInt8) (position : Nat) (bytes : List UInt8) : List UInt8 :=
  buf.take position ++ bytes ++ buf.drop (position + bytes.length)

def readenvLoop (stop : UInt32) :
    Nat → UInt32 → UInt32 → UInt32 → List UInt8 → Chip → Exec (Int × List UInt8 × Chip)
  | 0, _, _, _, _, _ => .error .diverges
  | fuel + 1, offset, amountLoaded, len, buf, chip =>
      if amountLoaded < config.size ∧ offset < stop then
        if mtdBlockIsbad mtd offset.toUInt64 ≠ 0 then
          readenvLoop stop fuel (offset + mtd.erasesize) amountLoaded len buf chip
        else do
          let done ← nandReadSkipBad mtd chip offset.toUInt64 len mtd.size.toNat
          let buf := storeAt buf amountLoaded.toNat done.data
          if done.ret ≠ 0 then
            .ok (1, buf, done.chip)
          else
            readenvLoop stop fuel (offset + mtd.erasesize) (amountLoaded + done.length)
              done.length buf done.chip
      else if amountLoaded ≠ config.size then
        .ok (1, buf, chip)
      else
        .ok (0, buf, chip)

def readenv (chip : Chip) (offset : UInt32) (buf : List UInt8) : Exec (Int × List UInt8 × Chip) :=
  if mtd.erasesize = 0 then
    .ok (1, buf, chip)
  else
    readenvLoop mtd config (offset + config.range) (walkFuel mtd config) offset 0
      (pieceSize mtd config) buf chip

end

variable {turn : Nat}

section

variable {Chip : Type} (mtd : MtdInfo Chip) (config : EnvArea) (offset : UInt32)

def turnOffset (turn : Nat) : UInt32 := offset + UInt32.ofNat turn * mtd.erasesize

def Taken (turn : Nat) : Prop := mtdBlockIsbad mtd (turnOffset mtd offset turn).toUInt64 = 0

instance : DecidablePred (Taken mtd offset) := fun _ => inferInstanceAs (Decidable (_ = _))

/-- The walk ends at a turn: the range is left, or the write of a piece is refused. -/
def Ends (turn : Nat) : Prop :=
  ¬ turnOffset mtd offset turn < offset + config.range ∨
    Taken mtd offset turn ∧ (mtd.writeable = false ∨
      mtd.size.toNat < (turnOffset mtd offset turn).toNat + (pieceSize mtd config).toNat)

def pieceCount : Nat := config.size.toNat / (pieceSize mtd config).toNat

def takenPieces (turn turns : Nat) : List (Nat × Nat) :=
  ((List.range' turn turns).filter (Taken mtd offset)).map fun turn =>
    ((turnOffset mtd offset turn).toNat, (pieceSize mtd config).toNat)

variable {mtd config offset}

theorem Taken.not_bad (taken : Taken mtd offset turn) :
    ¬ mtdBlockIsbad mtd (turnOffset mtd offset turn).toUInt64 ≠ 0 :=
  not_not.mpr taken

theorem turnOffset_succ :
    turnOffset mtd offset turn + mtd.erasesize = turnOffset mtd offset (turn + 1) := by
  rw [turnOffset, turnOffset, UInt32.ofNat_add, UInt32.add_mul, UInt32.add_assoc]
  congr 2
  exact (UInt32.one_mul _).symm

theorem takenPieces_succ_of_taken (taken : Taken mtd offset turn) :
    takenPieces mtd config offset turn (turns + 1) =
      ((turnOffset mtd offset turn).toNat, (pieceSize mtd config).toNat) ::
        takenPieces mtd config offset (turn + 1) turns := by
  simp [takenPieces, List.range'_succ, taken]

theorem takenPieces_succ_of_bad (bad : ¬ Taken mtd offset turn) :
    takenPieces mtd config offset turn (turns + 1) =
      takenPieces mtd config offset (turn + 1) turns := by
  simp [takenPieces, List.range'_succ, bad]

end

section

variable {Chip : Type} {mtd : MtdInfo Chip} {config : EnvArea} {offset : UInt32}

variable (mtd config) in
/-- A multiple of the erase size, or smaller than it. -/
def Pieced : Prop :=
  mtd.erasesize.toNat ∣ config.size.toNat ∨ config.size.toNat < mtd.erasesize.toNat

variable (mtd config offset) in
def turnAmount (turn : Nat) : UInt32 :=
  .ofNat (Nat.count (Taken mtd offset) turn * (pieceSize mtd config).toNat)

theorem toNat_pieceSize :
    (pieceSize mtd config).toNat = min mtd.erasesize.toNat config.size.toNat := by
  rw [pieceSize]
  split
  · rename_i less
    exact (Nat.min_eq_left less.le).symm
  · rename_i notLess
    exact (Nat.min_eq_right (Nat.le_of_not_lt notLess)).symm

theorem pieceSize_le : (pieceSize mtd config).toNat ≤ mtd.erasesize.toNat := by
  rw [toNat_pieceSize]
  exact Nat.min_le_left _ _

theorem pieceCount_mul (pieced : Pieced mtd config) :
    pieceCount mtd config * (pieceSize mtd config).toNat = config.size.toNat := by
  apply Nat.div_mul_cancel
  rw [toNat_pieceSize]
  rcases pieced with divides | less
  · cases Nat.le_total mtd.erasesize.toNat config.size.toNat with
    | inl less =>
      rw [Nat.min_eq_left less]
      exact divides
    | inr less => rw [Nat.min_eq_right less]
  · rw [Nat.min_eq_right less.le]

theorem turnAmount_succ_of_taken {turn : Nat} (taken : Taken mtd offset turn) :
    turnAmount mtd config offset turn + pieceSize mtd config =
      turnAmount mtd config offset (turn + 1) := by
  rw [turnAmount, turnAmount, Nat.count_succ, if_pos taken, Nat.add_mul, Nat.one_mul,
    UInt32.ofNat_add, UInt32.ofNat_toNat]

theorem turnAmount_succ_of_bad (bad : ¬ Taken mtd offset turn) :
    turnAmount mtd config offset turn = turnAmount mtd config offset (turn + 1) := by
  rw [turnAmount, turnAmount, Nat.count_succ, if_neg bad, Nat.add_zero]

variable (pieced : Pieced mtd config)
include pieced

theorem toNat_turnAmount (within : Nat.count (Taken mtd offset) turn ≤ pieceCount mtd config) :
    (turnAmount mtd config offset turn).toNat =
      Nat.count (Taken mtd offset) turn * (pieceSize mtd config).toNat := by
  apply UInt32.toNat_ofNat_of_lt'
  have whole := pieceCount_mul pieced
  have word := config.size.toNat_lt
  have less := Nat.mul_le_mul_right (pieceSize mtd config).toNat within
  exact Nat.lt_of_le_of_lt (less.trans whole.le) word

omit pieced in
theorem pieceSize_pos (nonempty : 0 < pieceCount mtd config) :
    0 < (pieceSize mtd config).toNat := by
  rw [pieceCount] at nonempty
  exact Nat.pos_of_ne_zero fun zero => by simp [zero] at nonempty

theorem turnAmount_add_le (more : Nat.count (Taken mtd offset) turn < pieceCount mtd config) :
    (turnAmount mtd config offset turn).toNat + (pieceSize mtd config).toNat ≤
      config.size.toNat := by
  rw [toNat_turnAmount pieced more.le, ← pieceCount_mul pieced, ← Nat.succ_mul]
  exact Nat.mul_le_mul_right _ more

theorem turnAmount_lt_iff (within : Nat.count (Taken mtd offset) turn ≤ pieceCount mtd config) :
    turnAmount mtd config offset turn < config.size ↔
      Nat.count (Taken mtd offset) turn < pieceCount mtd config := by
  rw [UInt32.lt_iff_toNat_lt]
  constructor
  · intro less
    apply Nat.lt_of_le_of_ne within
    intro all
    rw [toNat_turnAmount pieced within, all, pieceCount_mul pieced] at less
    exact Nat.lt_irrefl _ less
  · intro more
    have positive := pieceSize_pos (Nat.zero_lt_of_lt more)
    have ends := turnAmount_add_le pieced more
    omega

theorem turnAmount_eq_of_all (all : Nat.count (Taken mtd offset) turn = pieceCount mtd config) :
    turnAmount mtd config offset turn = config.size := by
  apply UInt32.toNat_inj.mp
  rw [toNat_turnAmount pieced all.le, all, pieceCount_mul pieced]

omit pieced in
theorem count_succ_le (more : Nat.count (Taken mtd offset) turn < pieceCount mtd config) :
    Nat.count (Taken mtd offset) (turn + 1) ≤ pieceCount mtd config := by
  rw [Nat.count_succ]
  split <;> omega

theorem toNat_turnAmount_succ (taken : Taken mtd offset turn)
    (more : Nat.count (Taken mtd offset) turn < pieceCount mtd config) :
    (turnAmount mtd config offset (turn + 1)).toNat =
      (turnAmount mtd config offset turn).toNat + (pieceSize mtd config).toNat := by
  rw [toNat_turnAmount pieced (count_succ_le more), toNat_turnAmount pieced more.le,
    Nat.count_succ, if_pos taken, Nat.succ_mul]

end

/-! ## Writing -/

variable {fuel : Nat}

section

variable {mtd : MtdInfo Nand.Flash} {config : EnvArea} {offset : UInt32} {buf : List UInt8}
  {flash : Nand.Flash}

theorem outside_word_iff (regular : mtd.Regular) (word len : UInt32) :
    outside mtd word.toUInt64 len = false ↔ word.toNat + len.toNat ≤ mtd.size.toNat := by
  have bound := word.toNat_lt
  rw [outside_eq_false_iff regular, UInt32.toNat_toUInt64]
  omega

theorem mtdWrite_refused (regular : mtd.Regular) {word len : UInt32} {bytes : List UInt8}
    (refused : mtd.writeable = false ∨ mtd.size.toNat < word.toNat + len.toNat) :
    (mtdWrite mtd flash word.toUInt64 len bytes).ret ≠ 0 := by
  rw [mtdWrite]
  split
  · exact (by decide : -EINVAL ≠ 0)
  · rename_i inside
    rw [Bool.not_eq_true, outside_word_iff regular] at inside
    rw [if_pos (refused.resolve_right (by omega))]
    exact (by decide : -EROFS ≠ 0)

theorem mtdWrite_accepted (regular : mtd.Regular) (ideal : mtd.Ideal) {word len : UInt32}
    (long : len.toNat ≤ bytes.length)
    (accepted : ¬ (mtd.writeable = false ∨ mtd.size.toNat < word.toNat + len.toNat)) :
    mtdWrite mtd flash word.toUInt64 len bytes = ⟨0, len, [], flash.program
      ((List.range' word.toNat len.toNat).zip (bytes.take len.toNat))⟩ := by
  rw [not_or, Nat.not_lt] at accepted
  have inside := (outside_word_iff regular word len).mpr accepted.2
  have success : (mtdWrite mtd flash word.toUInt64 len bytes).ret = 0 := by
    rw [mtdWrite, inside, if_neg (by decide), if_neg accepted.1]
    split
    · rfl
    · rw [ideal.write]
  rw [(mtdWrite_eq_of_success ideal long success).2, UInt32.toNat_toUInt64]

variable (mtd config offset buf) in
def writeenvFrom (fuel turn : Nat) (flash : Nand.Flash) : Exec (Int × Nand.Flash) :=
  writeenvLoop mtd config (offset + config.range) buf fuel (turnOffset mtd offset turn)
    (turnAmount mtd config offset turn) (pieceSize mtd config) flash

variable (mtd config offset) in
def WritesOn (turn : Nat) : Prop :=
  ¬ Ends mtd config offset turn ∧ Nat.count (Taken mtd offset) turn < pieceCount mtd config

variable (regular : mtd.Regular) (ideal : mtd.Ideal) (pieced : Pieced mtd config)
  (sized : buf.length = config.size.toNat)

include regular pieced in
theorem writeenvFrom_ends (ends : Ends mtd config offset turn)
    (more : Nat.count (Taken mtd offset) turn < pieceCount mtd config) :
    ∃ last, writeenvFrom mtd config offset buf (fuel + 1) turn flash = .ok (1, last) := by
  have less := (turnAmount_lt_iff pieced more.le).mpr more
  rw [writeenvFrom, writeenvLoop]
  by_cases inRange : turnOffset mtd offset turn < offset + config.range
  · obtain ⟨taken, refused⟩ := ends.resolve_left (not_not.mpr inRange)
    rw [if_pos ⟨less, inRange⟩, if_neg taken.not_bad]
    dsimp only
    rw [if_pos (mtdWrite_refused regular refused)]
    exact ⟨_, rfl⟩
  · have unfinished : turnAmount mtd config offset turn ≠ config.size := UInt32.ne_of_lt less
    rw [if_neg (fun both => inRange both.2), if_pos unfinished]
    exact ⟨_, rfl⟩

include pieced in
theorem writeenvFrom_done (all : Nat.count (Taken mtd offset) turn = pieceCount mtd config) :
    writeenvFrom mtd config offset buf (fuel + 1) turn flash = .ok (0, flash) := by
  have finished := turnAmount_eq_of_all pieced all
  rw [writeenvFrom, writeenvLoop, finished, if_neg (fun both => UInt32.lt_irrefl _ both.1),
    if_neg (not_not.mpr rfl)]

variable (mtd config offset buf flash) in
def pieceWritten (turn : Nat) : Nand.Flash :=
  flash.program ((List.range' (turnOffset mtd offset turn).toNat (pieceSize mtd config).toNat).zip
    ((buf.drop (turnAmount mtd config offset turn).toNat).take (pieceSize mtd config).toNat))

variable (mtd config offset buf flash) in
def turnWritten (turn : Nat) : Nand.Flash :=
  if Taken mtd offset turn then pieceWritten mtd config offset buf flash turn else flash

include regular ideal pieced sized in
theorem writeenvFrom_succ (goesOn : WritesOn mtd config offset turn) :
    writeenvFrom mtd config offset buf (fuel + 1) turn flash =
      writeenvFrom mtd config offset buf fuel (turn + 1)
        (turnWritten mtd config offset buf flash turn) := by
  obtain ⟨goes, more⟩ := goesOn
  have less := (turnAmount_lt_iff pieced more.le).mpr more
  have room := turnAmount_add_le pieced more
  rw [Ends, not_or, not_not] at goes
  rw [writeenvFrom, writeenvFrom, writeenvLoop, if_pos ⟨less, goes.1⟩, turnOffset_succ, turnWritten]
  by_cases taken : Taken mtd offset turn
  · have long : (pieceSize mtd config).toNat ≤
        (buf.drop (turnAmount mtd config offset turn).toNat).length := by
      rw [List.length_drop, sized]
      omega
    rw [if_neg taken.not_bad, if_pos taken]
    dsimp only
    rw [mtdWrite_accepted regular ideal long (fun refused => goes.2 ⟨taken, refused⟩),
      if_neg (not_not.mpr rfl), turnAmount_succ_of_taken taken]
    rfl
  · rw [if_pos (show mtdBlockIsbad mtd _ ≠ 0 from taken), if_neg taken,
      turnAmount_succ_of_bad taken]

include pieced in
theorem zip_cells (long : config.size.toNat ≤ buf.length) (taken : Taken mtd offset turn)
    (more : Nat.count (Taken mtd offset) turn < pieceCount mtd config) :
    (List.range' start (pieceSize mtd config).toNat ++ addresses).zip
        (buf.drop (turnAmount mtd config offset turn).toNat) =
      (List.range' start (pieceSize mtd config).toNat).zip
          ((buf.drop (turnAmount mtd config offset turn).toNat).take
            (pieceSize mtd config).toNat) ++
        addresses.zip (buf.drop (turnAmount mtd config offset (turn + 1)).toNat) := by
  have room := turnAmount_add_le pieced more
  rw [toNat_turnAmount_succ pieced taken more, ← List.drop_drop, ← List.zip_append,
    List.take_append_drop]
  rw [List.length_range', List.length_take, List.length_drop]
  omega

include regular ideal pieced sized

-- The induction is on the fuel; every turn before the last one goes on.
theorem writeenvFrom_fails (later : turn ≤ last) (enough : last < turn + fuel)
    (ends : Ends mtd config offset last)
    (more : Nat.count (Taken mtd offset) last < pieceCount mtd config) :
    ∃ after, writeenvFrom mtd config offset buf fuel turn flash = .ok (1, after) := by
  induction fuel generalizing turn flash with
  | zero => omega
  | succ fuel induction =>
    have here := Nat.lt_of_le_of_lt (Nat.count_monotone (Taken mtd offset) later) more
    by_cases now : Ends mtd config offset turn
    · exact writeenvFrom_ends regular pieced now here
    · have next : turn ≠ last := fun same => now (same ▸ ends)
      rw [writeenvFrom_succ regular ideal pieced sized ⟨now, here⟩]
      exact induction (by omega) (by omega)

theorem writeenvFrom_ne_one
    (goesOn : ∀ later, Nat.count (Taken mtd offset) later < pieceCount mtd config →
      ¬ Ends mtd config offset later)
    (within : Nat.count (Taken mtd offset) turn ≤ pieceCount mtd config) :
    writeenvFrom mtd config offset buf fuel turn flash ≠ .ok (1, after) := by
  induction fuel generalizing turn flash with
  | zero =>
    intro returned
    cases returned
  | succ fuel induction =>
    rcases Nat.lt_or_eq_of_le within with more | all
    · rw [writeenvFrom_succ regular ideal pieced sized ⟨goesOn turn more, more⟩]
      exact induction (count_succ_le more)
    · rw [writeenvFrom_done pieced all]
      intro returned
      cases returned

theorem writeenvFrom_succeeds (enough : turns < fuel)
    (all : Nat.count (Taken mtd offset) (turn + turns) = pieceCount mtd config)
    (goesOn : ∀ later ∈ List.range' turn turns, WritesOn mtd config offset later) :
    ∃ after, writeenvFrom mtd config offset buf fuel turn flash = .ok (0, after) := by
  induction turns generalizing fuel turn flash with
  | zero =>
    obtain ⟨fuel, rfl⟩ : ∃ rest, fuel = rest + 1 := ⟨fuel - 1, by omega⟩
    exact ⟨flash, writeenvFrom_done pieced all⟩
  | succ turns induction =>
    obtain ⟨fuel, rfl⟩ : ∃ rest, fuel = rest + 1 := ⟨fuel - 1, by omega⟩
    rw [List.range'_succ, List.forall_mem_cons] at goesOn
    rw [writeenvFrom_succ regular ideal pieced sized goesOn.1]
    exact induction (by omega) (by rw [Nat.add_right_comm]; exact all) goesOn.2

theorem writeenvFrom_returns (within : Nat.count (Taken mtd offset) turn ≤ pieceCount mtd config)
    (returned : writeenvFrom mtd config offset buf fuel turn flash = .ok (0, after)) :
    ∃ turns, Nat.count (Taken mtd offset) (turn + turns) = pieceCount mtd config ∧
      (∀ later ∈ List.range' turn turns, WritesOn mtd config offset later) ∧
      after = flash.program ((pieceAddresses (takenPieces mtd config offset turn turns)).zip
        (buf.drop (turnAmount mtd config offset turn).toNat)) := by
  induction fuel generalizing turn flash with
  | zero => cases returned
  | succ fuel induction =>
    rcases Nat.lt_or_eq_of_le within with more | all
    · by_cases now : Ends mtd config offset turn
      · obtain ⟨last, failed⟩ := @writeenvFrom_ends turn fuel mtd config offset buf flash regular
          pieced now more
        rw [failed] at returned
        cases returned
      · rw [writeenvFrom_succ regular ideal pieced sized ⟨now, more⟩] at returned
        obtain ⟨turns, all, goesOn, stored⟩ := induction (count_succ_le more) returned
        refine ⟨turns + 1, by rw [← all, Nat.add_right_comm]; rfl, ?_, ?_⟩
        · rw [List.range'_succ, List.forall_mem_cons]
          exact ⟨⟨now, more⟩, goesOn⟩
        · rw [stored, turnWritten]
          by_cases taken : Taken mtd offset turn
          · rw [if_pos taken, pieceWritten, Nand.Flash.program_append,
              takenPieces_succ_of_taken taken, pieceAddresses_cons,
              zip_cells pieced sized.ge taken more]
          · rw [if_neg taken, takenPieces_succ_of_bad taken, turnAmount_succ_of_bad taken]
    · rw [writeenvFrom_done pieced all] at returned
      cases returned
      exact ⟨0, all, by simp, by simp [takenPieces, Nand.Flash.program_nil]⟩

end

end UBootV210.Environment
