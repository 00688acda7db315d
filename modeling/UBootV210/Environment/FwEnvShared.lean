import UBootV210.Environment.FwEnv

/-! # An environment that both programs use

What one program has written the other one reads, but for an area that reaches 2 GiB: the
end of the range is an `off_t` in `flash_read_buf`, and is negative then. -/

namespace UBootV210.Environment

open Nand

/-- Linux shows the device of `mtd`: the same blocks are bad, a read in the device succeeds,
an erase that succeeds erases, and a write that succeeds stores what is written to erased
cells. -/
structure MtdFile.Shows (file : MtdFile) (mtd : MtdInfo Nand.Flash) : Prop where
  tested : ∀ address : Nat, address < mtd.size.toNat → ¬ file.memGetBadBlock address < 0
  bad : ∀ address : Nat, address < mtd.size.toNat →
    (file.memGetBadBlock address = 0 ↔ mtdBlockIsbad mtd (.ofNat address) = 0)
  outside : ∀ position : Int, position < 0 ∨ mtd.size.toNat ≤ position →
    file.memGetBadBlock position < 0
  read : ∀ flash (address : Nat) len, address + len.toNat ≤ mtd.size.toNat →
    file.read flash address len = (List.range' address len.toNat).map flash.contents
  erased : ∀ flash (address : Nat) len after, file.memErase flash address len = (0, after) →
    ∀ cell, address ≤ cell → cell < address + len.toNat → after.contents cell = 0xff
  kept : ∀ flash (address : Nat) len after, file.memErase flash address len = (0, after) →
    ∀ cell, cell < address ∨ address + len.toNat ≤ cell → after.contents cell = flash.contents cell
  write : ∀ flash (address : Nat) bytes after,
    (∀ cell, address ≤ cell → cell < address + bytes.length → flash.contents cell = 0xff) →
    file.write flash address bytes = ((bytes.length : Int), after) →
    after.contents = storeCells flash.contents ((List.range' address bytes.length).zip bytes)

def linuxDev (mtd : MtdInfo Nand.Flash) (area : EnvArea) (offset sectors : UInt32) : EnvDev :=
  ⟨offset, area.size, mtd.erasesize, sectors⟩

@[simp] theorem linuxDev_eraseSize :
    (linuxDev mtd area offset sectors).eraseSize = mtd.erasesize := rfl

theorem offT_of_lt (small : word.toNat < 2 ^ 31) : offT word = word.toNat := by
  change word.toBitVec.toInt = _
  rw [BitVec.toInt_eq_toNat_cond, UInt32.toNat_toBitVec, if_pos (by omega)]

theorem offT_of_ge (large : 2 ^ 31 ≤ word.toNat) : offT word < 0 := by
  have bound := word.toNat_lt
  change word.toBitVec.toInt < 0
  rw [BitVec.toInt_eq_toNat_cond, UInt32.toNat_toBitVec]
  omega

section

variable {mtd : MtdInfo Nand.Flash} {area : EnvArea} {offset sectors : UInt32}
  (aligned : mtd.erasesize.toNat ∣ offset.toNat)
  (whole : area.range.toNat = sectors.toNat * mtd.erasesize.toNat)

include aligned in
theorem blockstart_eq : offset / mtd.erasesize * mtd.erasesize = offset := by
  apply UInt32.toNat_inj.mp
  rw [UInt32.toNat_mul, UInt32.toNat_div, Nat.div_mul_cancel aligned,
    Nat.mod_eq_of_lt offset.toNat_lt]

include aligned whole in
theorem rangeEnd_eq : (offset / mtd.erasesize + sectors) * mtd.erasesize = offset + area.range := by
  have range : sectors * mtd.erasesize = area.range := by
    apply UInt32.toNat_inj.mp
    rw [UInt32.toNat_mul, ← whole, Nat.mod_eq_of_lt area.range.toNat_lt]
  rw [UInt32.add_mul, blockstart_eq aligned, range]

theorem toNat_rangeEnd (word : offset.toNat + area.range.toNat < 2 ^ 32) :
    (offset + area.range).toNat = offset.toNat + area.range.toNat := by
  rw [UInt32.toNat_add, Nat.mod_eq_of_lt word]

section

include aligned whole

theorem topOfRange_eq :
    topOfRange (linuxDev mtd area offset sectors) = offT (offset + area.range) :=
  congrArg offT (rangeEnd_eq aligned whole)

theorem topOfRange_of_lt (small : offset.toNat + area.range.toNat < 2 ^ 31) :
    topOfRange (linuxDev mtd area offset sectors) =
      ((offset.toNat + area.range.toNat : Nat) : Int) := by
  have word := @toNat_rangeEnd area offset (by omega)
  rw [topOfRange_eq aligned whole, offT_of_lt (by omega), word]

end

variable (mtd area sectors) in
theorem blockstart_succ (turn : Nat) : ((offset.toNat + turn * mtd.erasesize.toNat : Nat) : Int) +
        ((linuxDev mtd area offset sectors).eraseSize.toNat : Int) =
      ((offset.toNat + (turn + 1) * mtd.erasesize.toNat : Nat) : Int) := by
  rw [Nat.succ_mul, linuxDev]
  push_cast
  omega

end

variable {turn : Nat}

section

variable {mtd : MtdInfo Nand.Flash} {file : MtdFile} {area : EnvArea} {offset sectors : UInt32}
  {flash : Nand.Flash}

variable (mtd area offset) in
def turnReadlen (turn : Nat) : UInt32 :=
  if mtd.erasesize < area.size - turnAmount mtd area offset turn then
    mtd.erasesize
  else
    area.size - turnAmount mtd area offset turn

theorem turnReadlen_eq (pieced : Pieced mtd area)
    (more : Nat.count (Taken mtd offset) turn < pieceCount mtd area) :
    turnReadlen mtd area offset turn = pieceSize mtd area := by
  have room := turnAmount_add_le pieced more
  have left : (area.size - turnAmount mtd area offset turn).toNat =
      area.size.toNat - (turnAmount mtd area offset turn).toNat := by
    apply UInt32.toNat_sub_of_le
    rw [UInt32.le_iff_toNat_le]
    omega
  have size := @toNat_pieceSize _ mtd area
  apply UInt32.toNat_inj.mp
  rw [turnReadlen]
  simp only [UInt32.lt_iff_toNat_lt, left]
  rcases Nat.le_total area.size.toNat mtd.erasesize.toNat with less | less
  · rw [if_neg (by omega)]
    omega
  · split <;> omega

variable (mtd area file offset) in
/-- `flash_read_buf` goes on at a turn, as `readenv` does. -/
structure FwReadsOn (sectors : UInt32) (turn : Nat) : Prop where
  word : (turnOffset mtd offset turn).toNat = offset.toNat + turn * mtd.erasesize.toNat
  inRange : ((offset.toNat + turn * mtd.erasesize.toNat + (pieceSize mtd area).toNat : Nat) : Int) ≤
    topOfRange (linuxDev mtd area offset sectors)
  inDevice : offset.toNat + turn * mtd.erasesize.toNat + (pieceSize mtd area).toNat ≤ mtd.size.toNat
  more : Nat.count (Taken mtd offset) turn < pieceCount mtd area

-- The induction is on the turns, as for `readenv`.
theorem flashReadLoop_returns (shows : file.Shows mtd) (pieced : Pieced mtd area)
    {turns fuel turn : Nat} {buf : List UInt8}
    (enough : turns < fuel) (sized : buf.length = area.size.toNat)
    (all : Nat.count (Taken mtd offset) (turn + turns) = pieceCount mtd area)
    (goesOn : ∀ later ∈ List.range' turn turns, FwReadsOn mtd area offset sectors later) :
    flashReadLoop file (linuxDev mtd area offset sectors) flash area.size fuel
        ((offset.toNat + turn * mtd.erasesize.toNat : Nat) : Int) 0
        (turnReadlen mtd area offset turn) (turnAmount mtd area offset turn) buf =
      .ok (area.size.toInt32, buf.take (turnAmount mtd area offset turn).toNat ++
        (pieceAddresses (takenPieces mtd area offset turn turns)).map flash.contents) := by
  obtain ⟨fuel, rfl⟩ : ∃ rest, fuel = rest + 1 := ⟨fuel - 1, by omega⟩
  induction turns generalizing fuel turn buf with
  | zero =>
    have finished := turnAmount_eq_of_all pieced all
    rw [Nat.add_zero] at finished
    rw [flashReadLoop, finished, if_neg (UInt32.lt_irrefl _), ← sized, List.take_length]
    simp [takenPieces]
  | succ turns induction =>
    rw [List.range'_succ, List.forall_mem_cons] at goesOn
    obtain ⟨⟨word, inRange, inDevice, more⟩, later⟩ := goesOn
    have less := (turnAmount_lt_iff pieced more.le).mpr more
    have positive := @pieceSize_pos _ mtd area (Nat.zero_lt_of_lt more)
    have inside : offset.toNat + turn * mtd.erasesize.toNat < mtd.size.toNat := by omega
    have bad := shows.bad _ inside
    rw [← word, UInt64.ofNat_uInt32ToNat] at bad
    rw [← Nat.add_assoc, ← Nat.add_right_comm] at all
    have readlen := turnReadlen_eq pieced more
    obtain ⟨fuel, rfl⟩ : ∃ rest, fuel = rest + 1 := ⟨fuel - 1, by omega⟩
    rw [flashReadLoop, if_pos less, if_neg (shows.tested _ inside), readlen,
      if_neg (by rw [Int.add_zero]; push_cast at inRange ⊢; omega), blockstart_succ]
    by_cases taken : Taken mtd offset turn
    · have bytes := shows.read flash _ _ inDevice
      obtain ⟨stored, storing, length, pieces⟩ :=
        storeAt_piece pieced flash.contents sized taken more
      rw [← word] at bytes ⊢
      rw [if_neg (not_not.mpr (bad.mpr taken)), Int.add_zero, bytes]
      dsimp only
      rw [if_neg (by simp), turnAmount_succ_of_taken taken, storing, ← pieces]
      exact induction length all later fuel (by omega)
    · have skipped := mt bad.mp taken
      rw [word] at skipped
      rw [if_pos skipped, takenPieces_succ_of_bad taken]
      have rest := induction sized all later fuel (by omega)
      rw [turnReadlen, ← turnAmount_succ_of_bad taken] at rest
      rw [← readlen]
      exact rest

end

/-! ## Writing -/

theorem storeCells_congr (same : ∀ address ∉ cells.map Prod.fst, contents address = other address) :
    storeCells contents cells = storeCells other cells := by
  induction cells generalizing contents other with
  | nil =>
    funext address
    exact same address List.not_mem_nil
  | cons cell cells induction =>
    rw [storeCells, storeCells, List.foldl_cons, List.foldl_cons]
    apply induction
    intro address absent
    by_cases first : address = cell.1
    · rw [first, Function.update_self, Function.update_self]
    · rw [Function.update_of_ne first, Function.update_of_ne first]
      apply same
      rw [List.map_cons, List.mem_cons, not_or]
      exact ⟨first, absent⟩

theorem length_le_storeAt (buf bytes : List UInt8) (position : Nat) :
    buf.length ≤ (storeAt buf position bytes).length := by
  simp only [storeAt, List.length_append, List.length_take, List.length_drop]
  omega

variable {fuel : Nat} {buf data : List UInt8} {rc : Int32}

section

variable {mtd : MtdInfo Nand.Flash} {file : MtdFile} {area : EnvArea} {offset sectors : UInt32}
  {flash after : Nand.Flash}

theorem length_le_flashReadLoop
    (returned : flashReadLoop file dev flash count fuel blockstart blockSeek readlen processed buf =
      .ok (rc, out)) : buf.length ≤ out.length := by
  induction fuel generalizing blockstart blockSeek readlen processed buf with
  | zero => cases returned
  | succ fuel induction =>
    have grows := length_le_storeAt buf (file.read flash (blockstart + blockSeek) readlen)
      processed.toNat
    rw [flashReadLoop] at returned
    split at returned
    · split at returned
      · cases returned
        exact Nat.le_refl _
      split at returned
      · cases returned
        exact Nat.le_refl _
      split at returned
      · exact induction returned
      dsimp only at returned
      split at returned
      · cases returned
        exact grows
      · exact grows.trans (induction returned)
    · cases returned
      exact Nat.le_refl _

theorem flashWriteLoop_step (success : 0 ≤ rc)
    (returned : flashWriteLoop file dev data total (fuel + 1) blockstart processed flash =
      .ok (rc, after)) :
    ¬ processed < total ∧ after = flash ∨ processed < total ∧ ¬ file.memGetBadBlock blockstart < 0 ∧
        blockstart + dev.eraseSize.toNat ≤ topOfRange dev ∧
        (¬ file.memGetBadBlock blockstart = 0 ∧
            flashWriteLoop file dev data total fuel (blockstart + dev.eraseSize.toNat) processed
              flash = .ok (rc, after) ∨
          file.memGetBadBlock blockstart = 0 ∧ ∃ erased written,
            file.memErase flash blockstart dev.eraseSize = (0, erased) ∧
            file.write erased blockstart ((data.drop processed.toNat).take dev.eraseSize.toNat) =
              ((dev.eraseSize.toNat : Int), written) ∧
            flashWriteLoop file dev data total fuel (blockstart + dev.eraseSize.toNat)
              (processed + dev.eraseSize) written = .ok (rc, after)) := by
  have failed {other : Nand.Flash} : (.ok (-1, other) : Exec (Int32 × Nand.Flash)) ≠
      .ok (rc, after) := by
    rintro ⟨⟩
    exact absurd success (by decide)
  rw [flashWriteLoop] at returned
  split at returned
  case isFalse finished =>
    cases returned
    exact .inl ⟨finished, rfl⟩
  case isTrue more =>
    split at returned
    case isTrue negative =>
      cases returned
      exact absurd success (Int32.not_le.mpr negative)
    case isFalse tested =>
      split at returned
      · exact (failed returned).elim
      case isFalse inRange =>
        refine .inr ⟨more, tested, by omega, ?_⟩
        split at returned
        case isTrue bad => exact .inl ⟨bad, returned⟩
        case isFalse good =>
          dsimp only at returned
          split at returned
          · exact (failed returned).elim
          case isFalse erased =>
            split at returned
            · exact (failed returned).elim
            case isFalse wrote =>
              exact .inr ⟨not_not.mp good, _, _, Prod.ext (not_not.mp erased) rfl,
                Prod.ext (not_not.mp wrote) rfl, returned⟩

theorem block_written (shows : file.Shows mtd) {address : Nat} {len : UInt32}
    (length : bytes.length = len.toNat)
    (erase : file.memErase flash address len = (0, erased))
    (write : file.write erased address bytes = ((len.toNat : Int), after)) :
    after.contents = storeCells flash.contents ((List.range' address len.toNat).zip bytes) := by
  have stored := shows.write erased address bytes after ?_ ?_
  · rw [stored, length]
    apply storeCells_congr
    intro cell outside
    rw [List.map_fst_zip (by rw [List.length_range', length]), List.mem_range'_1] at outside
    exact shows.kept flash address len erased erase cell (by omega)
  · rw [length]
    exact shows.erased flash address len erased erase
  · rw [length]
    exact write

theorem dvd_gap {divisor value bound : Nat} (divides : divisor ∣ value)
    (dividesBound : divisor ∣ bound) (less : value < bound) : value + divisor ≤ bound := by
  have gap := Nat.le_of_dvd (by omega) (Nat.dvd_sub dividesBound divides)
  omega

variable (mtd area) in
/-- The area with the environment filled up to whole blocks. -/
def blockArea : EnvArea :=
  ⟨(area.size + mtd.erasesize - 1) / mtd.erasesize * mtd.erasesize, area.range⟩

section

variable (regular : mtd.Regular) (pieced : Pieced mtd area)
include regular pieced

theorem size_blockArea :
    (blockArea mtd area).size.toNat = pieceCount mtd area * mtd.erasesize.toNat := by
  have positive := regular.positive
  have word := area.size.toNat_lt
  have fits : area.size.toNat + mtd.erasesize.toNat ≤ 2 ^ 32 := by
    rcases pieced with divides | less
    · exact dvd_gap divides regular.erasesize_dvd word
    · have block := regular.erasesize_le
      omega
  have sum : (area.size + mtd.erasesize - 1).toNat = area.size.toNat + mtd.erasesize.toNat - 1 := by
    simp only [UInt32.toNat_sub, UInt32.toNat_add, UInt32.reduceToNat]
    omega
  have blocks : (area.size.toNat + mtd.erasesize.toNat - 1) / mtd.erasesize.toNat =
      pieceCount mtd area := by
    rw [pieceCount, toNat_pieceSize]
    rcases Nat.eq_zero_or_pos area.size.toNat with none | some
    · rw [none, Nat.zero_div, Nat.zero_add, Nat.div_eq_of_lt (by omega)]
    · cases pieced with
      | inl divides =>
        rw [Nat.min_eq_left (Nat.le_of_dvd some divides)]
        obtain ⟨count, product⟩ := divides
        rw [product, Nat.mul_div_cancel_left _ positive, Nat.add_sub_assoc positive,
          Nat.mul_add_div positive, Nat.div_eq_of_lt (by omega), Nat.add_zero]
      | inr less =>
        rw [Nat.min_eq_right less.le, Nat.div_self some]
        apply Nat.div_eq_of_lt_le <;> omega
  rw [blockArea]
  rw [UInt32.toNat_mul, UInt32.toNat_div, sum, Nat.mod_eq_of_lt]
  rw [← blocks]
  have rounded := Nat.div_mul_le_self (area.size.toNat + mtd.erasesize.toNat - 1)
    mtd.erasesize.toNat
  omega

theorem pieceSize_blockArea (nonempty : 0 < pieceCount mtd area) :
    (pieceSize mtd (blockArea mtd area)).toNat = mtd.erasesize.toNat := by
  rw [toNat_pieceSize, size_blockArea regular pieced]
  exact Nat.min_eq_left (Nat.le_mul_of_pos_left _ nonempty)

theorem pieceCount_blockArea : pieceCount mtd (blockArea mtd area) = pieceCount mtd area := by
  rcases Nat.eq_zero_or_pos (pieceCount mtd area) with none | some
  · rw [pieceCount, size_blockArea regular pieced, none, Nat.zero_mul, Nat.zero_div]
  · rw [pieceCount, pieceSize_blockArea regular pieced some, size_blockArea regular pieced,
      Nat.mul_div_cancel _ regular.positive]

theorem pieced_blockArea : Pieced mtd (blockArea mtd area) := by
  rw [Pieced, size_blockArea regular pieced]
  exact .inl (Nat.dvd_mul_left _ _)

end

variable (mtd file area offset) in
structure FwWritten (turn : Nat) : Prop where
  inRange : (turn + 1) * mtd.erasesize.toNat ≤ area.range.toNat
  inDevice : offset.toNat + turn * mtd.erasesize.toNat < mtd.size.toNat
  more : Nat.count (Taken mtd offset) turn < pieceCount mtd area

section

variable (regular : mtd.Regular) (shows : file.Shows mtd) (pieced : Pieced mtd area)
  (top : topOfRange (linuxDev mtd area offset sectors) =
    ((offset.toNat + area.range.toNat : Nat) : Int))
  (small : offset.toNat + area.range.toNat < 2 ^ 31)

include small in
theorem FwWritten.word (written : FwWritten mtd area offset turn) :
    (turnOffset mtd offset turn).toNat = offset.toNat + turn * mtd.erasesize.toNat := by
  have inRange := written.inRange
  rw [Nat.succ_mul] at inRange
  rw [toNat_turnOffset, Nat.mod_eq_of_lt (by omega)]

include small in
theorem FwWritten.taken_iff (shows : file.Shows mtd) (written : FwWritten mtd area offset turn) :
    file.memGetBadBlock ((offset.toNat + turn * mtd.erasesize.toNat : Nat) : Int) = 0 ↔
      Taken mtd offset turn := by
  rw [shows.bad _ written.inDevice, ← written.word small, UInt64.ofNat_uInt32ToNat, Taken]

include regular shows pieced top small

-- The induction is on the fuel. The turns are those of `writeenv` with whole blocks.
theorem flashWriteLoop_returns (long : pieceCount mtd area * mtd.erasesize.toNat ≤ data.length)
    (within : Nat.count (Taken mtd offset) turn ≤ pieceCount mtd area) (success : 0 ≤ rc)
    (returned : flashWriteLoop file (linuxDev mtd area offset sectors) data
      (blockArea mtd area).size fuel ((offset.toNat + turn * mtd.erasesize.toNat : Nat) : Int)
      (turnAmount mtd (blockArea mtd area) offset turn) flash = .ok (rc, after)) :
    ∃ turns, Nat.count (Taken mtd offset) (turn + turns) = pieceCount mtd area ∧
      (∀ later ∈ List.range' turn turns, FwWritten mtd area offset later) ∧
      after.contents = storeCells flash.contents
        ((pieceAddresses (takenPieces mtd (blockArea mtd area) offset turn turns)).zip
          (data.drop (turnAmount mtd (blockArea mtd area) offset turn).toNat)) := by
  have count := pieceCount_blockArea regular pieced
  have size := size_blockArea regular pieced
  have piecedBlocks := pieced_blockArea regular pieced
  induction fuel generalizing turn flash with
  | zero => cases returned
  | succ fuel induction =>
    have amountLt := turnAmount_lt_iff piecedBlocks (count.symm ▸ within)
    rw [count] at amountLt
    rcases flashWriteLoop_step success returned with
      ⟨finished, rfl⟩ | ⟨more, tested, inRange, rest⟩
    · rw [amountLt] at finished
      exact ⟨0, by rw [Nat.add_zero]; omega, by simp, by simp [takenPieces, storeCells]⟩
    · rw [amountLt] at more
      rw [blockstart_succ, top] at inRange
      have here : FwWritten mtd area offset turn := by
        refine ⟨by omega, ?_, more⟩
        by_contra beyond
        exact tested (shows.outside _ (.inr (by omega)))
      rw [blockstart_succ, here.taken_iff small shows] at rest
      rcases rest with ⟨bad, rest⟩ | ⟨taken, erased, written, erase, write, rest⟩
      · rw [turnAmount_succ_of_bad bad] at rest ⊢
        obtain ⟨turns, all, later, stored⟩ := induction (count_succ_le more) rest
        refine ⟨turns + 1, by rw [← all, Nat.add_right_comm]; rfl, ?_, ?_⟩
        · rw [List.range'_succ, List.forall_mem_cons]
          exact ⟨here, later⟩
        · rw [takenPieces_succ_of_bad bad]
          exact stored
      · have block : pieceSize mtd (blockArea mtd area) = mtd.erasesize :=
          UInt32.toNat_inj.mp (pieceSize_blockArea regular pieced (Nat.zero_lt_of_lt more))
        have moreBlocks : Nat.count (Taken mtd offset) turn <
            pieceCount mtd (blockArea mtd area) := count.symm ▸ more
        have blockSize := congrArg UInt32.toNat block
        have length : ((data.drop (turnAmount mtd (blockArea mtd area) offset turn).toNat).take
            mtd.erasesize.toNat).length = mtd.erasesize.toNat := by
          have room := turnAmount_add_le piecedBlocks moreBlocks
          rw [List.length_take, List.length_drop]
          omega
        have amount := @turnAmount_succ_of_taken _ _ (blockArea mtd area) _ _ taken
        rw [block] at amount
        obtain ⟨turns, all, later, stored⟩ := induction (count_succ_le more) (amount ▸ rest)
        refine ⟨turns + 1, by rw [← all, Nat.add_right_comm]; rfl, ?_, ?_⟩
        · rw [List.range'_succ, List.forall_mem_cons]
          exact ⟨here, later⟩
        · rw [stored, block_written shows length erase write, ← storeCells_append,
            takenPieces_succ_of_taken taken, pieceAddresses_cons,
            zip_cells piecedBlocks (by omega) taken moreBlocks, here.word small, block]

end

end

/-! ## Both programs -/

variable {flash after : Nand.Flash} {buf2 : List UInt8}

section

variable (mtd : MtdInfo Nand.Flash) (file : MtdFile) (area : EnvArea) (offset sectors : UInt32)

/-- The two programs read what the other one has written, and choose the same copy. -/
structure EnvShared : Prop where
  linuxReads : ∀ flash after buf buf2,
    buf.length = area.size.toNat → buf2.length = area.size.toNat →
    writeenv mtd area flash offset buf = .ok (0, after) →
    ∃ rc, flashReadBuf file (linuxDev mtd area offset sectors) after buf2 area.size offset =
      .ok (rc, buf) ∧ rc.toUInt32 = area.size
  uBootReads : ∀ flash after buf buf2 rc,
    buf.length = area.size.toNat → buf2.length = area.size.toNat →
    flashWriteBuf file (linuxDev mtd area offset sectors) flash buf area.size offset =
      .ok (rc, after) → 0 ≤ rc →
    readenv mtd area after offset buf2 = .ok (0, buf, after)
  sameCopy : ∀ {Data : Type} (crc32 : Data → UInt32) (env0 env1 : EnvT Data),
    (envRelocateSpec crc32 ⟨some env0, some env1⟩ envInit).envValid =
        (fwEnvOpen crc32 env0 env1).1 + 1 ∧
      (envRelocateSpec crc32 ⟨some env0, some env1⟩ envInit).environment =
        (fwEnvOpen crc32 env0 env1).2

variable {mtd file area offset sectors}

variable (regular : mtd.Regular) (ideal : mtd.Ideal) (paged : Paged mtd)
  (aligned : mtd.erasesize.toNat ∣ offset.toNat) (pieced : Pieced mtd area)
  (whole : area.range.toNat = sectors.toNat * mtd.erasesize.toNat)
  (blocks : mtd.erasesize.toNat ∣ mtd.size.toNat) (shows : file.Shows mtd)

include aligned in
theorem flashReadBuf_eq :
    flashReadBuf file (linuxDev mtd area offset sectors) flash buf area.size offset =
      flashReadLoop file (linuxDev mtd area offset sectors) flash area.size
        (blockFuel (linuxDev mtd area offset sectors))
        ((offset.toNat + 0 * mtd.erasesize.toNat : Nat) : Int) 0
        (turnReadlen mtd area offset 0) (turnAmount mtd area offset 0) buf := by
  have start := blockstart_eq aligned
  rw [flashReadBuf, turnReadlen, turnAmount_zero, UInt32.sub_zero, Nat.zero_mul, Nat.add_zero]
  simp only [linuxDev_eraseSize, start, UInt32.sub_self, UInt32.sub_zero]
  rfl

include regular ideal aligned pieced whole shows in
theorem linux_reads (small : offset.toNat + area.range.toNat < 2 ^ 31)
    (sized : buf.length = area.size.toNat) (sized2 : buf2.length = area.size.toNat)
    (returned : writeenv mtd area flash offset buf = .ok (0, after)) :
    flashReadBuf file (linuxDev mtd area offset sectors) after buf2 area.size offset =
      .ok (area.size.toInt32, buf) := by
  have enough : ¬ TooFew mtd area offset := by
    intro tooFew
    obtain ⟨turn, ends, more⟩ := ends_of_whole_blocks regular ⟨sectors.toNat, by
      rw [whole, Nat.mul_comm]⟩ tooFew
    obtain ⟨other, failed⟩ := @writeenv_fails mtd area offset regular ideal pieced buf flash sized
      turn ends more
    rw [returned] at failed
    cases failed
  obtain ⟨turns, few, all, walked, inside, rfl⟩ :=
    writeenv_inside regular ideal pieced sized enough returned
  have top := topOfRange_of_lt aligned whole small
  have goesOn : ∀ later ∈ List.range' 0 turns, FwReadsOn mtd area offset sectors later := by
    intro later member
    have before : later < turns := by simpa using member
    obtain ⟨fits, start⟩ := inside later before
    refine ⟨start, by rw [top]; omega, ?_, (walked later before).2⟩
    -- The last block is taken, so that all blocks before it are in the device.
    obtain ⟨last, rfl⟩ : ∃ last, turns = last + 1 := ⟨turns - 1, by omega⟩
    have lastMore := (walked last (Nat.lt_succ_self last)).2
    have lastTaken := taken_of_count_succ (all.symm ▸ lastMore)
    have inDevice := (readsOn_of_goesOn (walked last (Nat.lt_succ_self last))).inDevice lastTaken
    rw [(inside last (Nat.lt_succ_self last)).2] at inDevice
    have earlier := Nat.mul_le_mul_right mtd.erasesize.toNat (Nat.le_of_lt_succ before)
    omega
  have read := @flashReadLoop_returns mtd file area offset sectors
    (flash.program ((pieceAddresses (takenPieces mtd area offset 0 turns)).zip buf)) shows pieced
    turns (blockFuel (linuxDev mtd area offset sectors)) 0 buf2
    (by rw [blockFuel, linuxDev_eraseSize]; omega) sized2 (by rw [Nat.zero_add]; exact all) goesOn
  have stored := map_written pieced flash.contents sized all fun turn before _ =>
    (inside turn before).2
  rw [flashReadBuf_eq aligned, read, turnAmount_zero, Nand.Flash.program, stored]
  rfl

theorem linux_reads_nothing (aligned : mtd.erasesize.toNat ∣ offset.toNat)
    (whole : area.range.toNat = sectors.toNat * mtd.erasesize.toNat)
    (nonempty : 0 < area.size.toNat) (large : 2 ^ 31 ≤ offset.toNat + area.range.toNat)
    (word : offset.toNat + area.range.toNat < 2 ^ 32) (flash : Nand.Flash) (buf : List UInt8) :
    flashReadBuf file (linuxDev mtd area offset sectors) flash buf area.size offset =
      .ok (-1, buf) := by
  have sum := toNat_rangeEnd word
  have top : topOfRange (linuxDev mtd area offset sectors) < 0 := by
    rw [topOfRange_eq aligned whole]
    exact offT_of_ge (by omega)
  have more : (0 : UInt32) < area.size := UInt32.lt_iff_toNat_lt.mpr nonempty
  rw [flashReadBuf_eq aligned, turnAmount_zero, blockFuel, flashReadLoop, if_pos more]
  split
  · rfl
  · rw [if_pos (by omega)]

/-! ### A write by Linux -/

section

include regular aligned pieced whole shows

theorem flashWriteLoop_first (nonempty : 0 < pieceCount mtd area) (success : 0 ≤ rc)
    (returned : flashWriteLoop file (linuxDev mtd area offset sectors) data
      (blockArea mtd area).size fuel (offT offset) 0 flash = .ok (rc, after)) :
    offT offset = offset.toNat ∧ offset.toNat + area.range.toNat < 2 ^ 31 ∧
      mtd.erasesize.toNat ≤ area.range.toNat := by
  have size := size_blockArea regular pieced
  have more : (0 : UInt32) < (blockArea mtd area).size := by
    rw [UInt32.lt_iff_toNat_lt, size]
    exact Nat.mul_pos nonempty regular.positive
  cases fuel with
  | zero => cases returned
  | succ fuel =>
    obtain ⟨_, tested, inRange, _⟩ :=
      (flashWriteLoop_step success returned).resolve_left fun finished => finished.1 more
    have low : offset.toNat < 2 ^ 31 := by
      by_contra high
      exact tested (shows.outside _ (.inl (offT_of_ge (Nat.le_of_not_lt high))))
    have start := offT_of_lt low
    have range := area.range.toNat_lt
    rw [start, topOfRange_eq aligned whole, linuxDev_eraseSize] at inRange
    by_cases word : offset.toNat + area.range.toNat < 2 ^ 32
    · have sum := toNat_rangeEnd word
      have below : (offset + area.range).toNat < 2 ^ 31 := by
        by_contra high
        have negative := offT_of_ge (Nat.le_of_not_lt high)
        omega
      rw [offT_of_lt below] at inRange
      exact ⟨start, by omega, by omega⟩
    · have sum : (offset + area.range).toNat = offset.toNat + area.range.toNat - 2 ^ 32 := by
        rw [UInt32.toNat_add, Nat.mod_eq_sub_mod (by omega), Nat.mod_eq_of_lt (by omega)]
      rw [offT_of_lt (by omega)] at inRange
      omega

omit aligned whole shows in
theorem pieceCount_of_lt (partly : area.size.toNat < (blockArea mtd area).size.toNat) :
    pieceCount mtd area = 1 ∧ (pieceSize mtd area).toNat = area.size.toNat := by
  have product := pieceCount_mul pieced
  have piece := @toNat_pieceSize _ mtd area
  rw [size_blockArea regular pieced, ← product] at partly
  have short : (pieceSize mtd area).toNat < mtd.erasesize.toNat := Nat.lt_of_mul_lt_mul_left partly
  have size : (pieceSize mtd area).toNat = area.size.toNat := by omega
  refine ⟨?_, size⟩
  have nonempty : 0 < pieceCount mtd area := by
    apply Nat.pos_of_ne_zero
    intro none
    rw [none, Nat.zero_mul, Nat.zero_mul] at partly
    exact Nat.lt_irrefl 0 partly
  rw [pieceCount, size, Nat.div_self (size ▸ pieceSize_pos nonempty)]

omit aligned whole shows in
theorem take_blockArea (all : Nat.count (Taken mtd offset) turns = pieceCount mtd area) :
    pieceAddresses (takenPieces mtd area offset 0 turns) =
      (pieceAddresses (takenPieces mtd (blockArea mtd area) offset 0 turns)).take
        area.size.toNat := by
  have size := size_blockArea regular pieced
  have product := pieceCount_mul pieced
  have short := Nat.mul_le_mul_left (pieceCount mtd area) (@pieceSize_le _ mtd area)
  rcases Nat.lt_or_ge area.size.toNat (blockArea mtd area).size.toNat with partly | large
  · obtain ⟨one, piece⟩ := pieceCount_of_lt regular pieced partly
    have block := pieceSize_blockArea regular pieced (one ▸ Nat.one_pos)
    rw [size, one, Nat.one_mul] at partly
    obtain ⟨turn, single⟩ := List.length_eq_one_iff.mp
      ((@length_taken mtd offset turns).trans (all.trans one))
    simp only [takenPieces, single, List.map_singleton, pieceAddresses_cons, pieceAddresses_nil,
      List.append_nil, block, piece, List.take_range'_of_length_ge partly.le]
  · have equal : (blockArea mtd area).size = area.size := UInt32.toNat_inj.mp (by omega)
    have same : blockArea mtd area = area := by
      cases area
      exact congrArg (EnvArea.mk · _) equal
    have length := @length_takenPieces mtd area offset turns
    rw [all, product] at length
    rw [same, ← length, List.take_length]

omit aligned whole shows in
theorem map_blockArea (contents : Nat → UInt8)
    (long : pieceCount mtd area * mtd.erasesize.toNat ≤ data.length)
    (all : Nat.count (Taken mtd offset) turns = pieceCount mtd area)
    (inside : ∀ turn < turns, Taken mtd offset turn → (turnOffset mtd offset turn).toNat =
      offset.toNat + turn * mtd.erasesize.toNat) :
    (pieceAddresses (takenPieces mtd area offset 0 turns)).map (storeCells contents
        ((pieceAddresses (takenPieces mtd (blockArea mtd area) offset 0 turns)).zip data)) =
      data.take area.size.toNat := by
  have size := size_blockArea regular pieced
  have count := pieceCount_blockArea regular pieced
  have piecedBlocks := pieced_blockArea regular pieced
  have short := Nat.mul_le_mul_left (pieceCount mtd area) (@pieceSize_le _ mtd area)
  rw [pieceCount_mul pieced, ← size] at short
  have length : (data.take (blockArea mtd area).size.toNat).length =
      (blockArea mtd area).size.toNat := by
    rw [List.length_take]
    omega
  have written := map_written piecedBlocks contents length (all.trans count.symm) inside
  have filled : (pieceAddresses (takenPieces mtd (blockArea mtd area) offset 0 turns)).length =
      (blockArea mtd area).size.toNat := by
    rw [length_takenPieces, all, ← count, pieceCount_mul piecedBlocks]
  have cells : (pieceAddresses (takenPieces mtd (blockArea mtd area) offset 0 turns)).zip
      (data.take (blockArea mtd area).size.toNat) =
      (pieceAddresses (takenPieces mtd (blockArea mtd area) offset 0 turns)).zip data := by
    rw [@List.zip_eq_zip_take_min _ _ _ data, filled, Nat.min_eq_left (by omega), ← filled,
      List.take_length]
  rw [cells] at written
  rw [take_blockArea regular pieced all, List.map_take, written, List.take_take,
    Nat.min_eq_left short]

end

section

include regular aligned pieced whole blocks shows

theorem uBoot_reads (ideal : mtd.Ideal) (paged : Paged mtd) (sized2 : buf2.length = area.size.toNat)
    (long : pieceCount mtd area * mtd.erasesize.toNat ≤ data.length)
    (starts : data.take area.size.toNat = buf) (success : 0 ≤ rc)
    (returned : flashWriteLoop file (linuxDev mtd area offset sectors) data
      (blockArea mtd area).size (blockFuel (linuxDev mtd area offset sectors)) (offT offset) 0
      flash = .ok (rc, after)) :
    readenv mtd area after offset buf2 = .ok (0, buf, after) := by
  have reads : ∃ turns, turns ≤ 2 ^ 32 / mtd.erasesize.toNat ∧
      Nat.count (Taken mtd offset) turns = pieceCount mtd area ∧
      (∀ turn < turns, ReadsOn mtd area offset turn) ∧
      (pieceAddresses (takenPieces mtd area offset 0 turns)).map after.contents =
        data.take area.size.toNat := by
    rcases Nat.eq_zero_or_pos (pieceCount mtd area) with none | some
    · have size := pieceCount_mul pieced
      rw [none, Nat.zero_mul] at size
      refine ⟨0, Nat.zero_le _, by rw [none, Nat.count_zero], ?_, by rw [← size]; rfl⟩
      omega
    · obtain ⟨start, small, _⟩ := flashWriteLoop_first regular aligned pieced whole shows some
        success returned
      have word := @toNat_rangeEnd area offset (by omega)
      have top := topOfRange_of_lt aligned whole small
      have zero : ((offset.toNat + 0 * mtd.erasesize.toNat : Nat) : Int) = offT offset := by
        rw [Nat.zero_mul, Nat.add_zero, start]
      rw [← zero, ← @turnAmount_zero mtd (blockArea mtd area) offset] at returned
      obtain ⟨turns, all, later, stored⟩ := flashWriteLoop_returns regular shows pieced top small
        long (by simp) success returned
      rw [Nat.zero_add] at all
      rw [turnAmount_zero] at stored
      have written : ∀ turn < turns, FwWritten mtd area offset turn := by
        intro turn before
        exact later turn (by simpa using before)
      refine ⟨turns, ?_, all, ?_, ?_⟩
      · cases turns with
        | zero => exact Nat.zero_le _
        | succ last =>
          have inRange := (written last (Nat.lt_succ_self last)).inRange
          apply Nat.le_of_mul_le_mul_left _ regular.positive
          rw [erasesize_mul_blocks regular, Nat.mul_comm]
          omega
      · intro turn before
        have here := written turn before
        have inRange := here.inRange
        rw [Nat.succ_mul] at inRange
        have positive := regular.positive
        refine ⟨?_, ?_, here.more⟩
        · rw [UInt32.lt_iff_toNat_lt, word, here.word small]
          omega
        · intro _
          have short := @pieceSize_le _ mtd area
          have gap := dvd_gap (Nat.dvd_add aligned (Nat.dvd_mul_left _ turn)) blocks here.inDevice
          rw [here.word small]
          omega
      · rw [stored]
        exact map_blockArea regular pieced flash.contents long all fun turn before _ =>
          (written turn before).word small
  obtain ⟨turns, few, all, goesOn, read⟩ := reads
  rw [readenv_returns regular ideal paged aligned pieced sized2 few all goesOn, read, starts]

end

section

include regular aligned pieced whole blocks shows

theorem uBoot_reads_buf (ideal : mtd.Ideal) (paged : Paged mtd)
    (sized : buf.length = area.size.toNat) (sized2 : buf2.length = area.size.toNat)
    (success : 0 ≤ rc)
    (returned : flashWriteBuf file (linuxDev mtd area offset sectors) flash buf area.size offset =
      .ok (rc, after)) :
    readenv mtd area after offset buf2 = .ok (0, buf, after) := by
  have start := blockstart_eq aligned
  have total : (offset - offset + area.size + mtd.erasesize - 1) / mtd.erasesize * mtd.erasesize =
      (blockArea mtd area).size := by
    rw [UInt32.sub_self, UInt32.zero_add, blockArea]
  have size := size_blockArea regular pieced
  rw [flashWriteBuf] at returned
  simp only [linuxDev_eraseSize, start, total] at returned
  split at returned
  case isFalse whole' =>
    rw [UInt32.lt_iff_toNat_lt] at whole'
    apply uBoot_reads regular aligned pieced whole blocks shows ideal paged sized2 (by omega)
      _ success returned
    rw [← sized, List.take_length]
  case isTrue partly =>
    rw [UInt32.lt_iff_toNat_lt] at partly
    have one := (pieceCount_of_lt regular pieced partly).1
    obtain ⟨⟨readRc, data⟩, read, rest⟩ := Exec.bind_eq_ok_iff.mp returned
    split at rest
    · cases rest
      exact absurd success (by decide)
    · obtain ⟨_, _, fits⟩ := flashWriteLoop_first regular aligned pieced whole shows
        (one ▸ Nat.one_pos) success rest
      have erased : ((offset / mtd.erasesize + sectors) * mtd.erasesize - offset).toNat =
          area.range.toNat := by
        rw [rangeEnd_eq aligned whole, UInt32.add_comm, UInt32.add_sub_cancel]
      have length := length_le_flashReadLoop read
      rw [List.length_replicate] at length
      have grows := length_le_storeAt data buf (offset - offset).toNat
      apply uBoot_reads regular aligned pieced whole blocks shows ideal paged sized2 _ _ success
        rest
      · rw [one, Nat.one_mul]
        apply fits.trans
        apply Nat.le_trans _ grows
        rw [← erased]
        exact length
      · rw [UInt32.sub_self, storeAt, UInt32.toNat_zero, List.take_zero, List.nil_append, ← sized,
          List.take_left]

end

/-- The programs share the environment exactly if it is empty, if the walk of `writeenv` ends
before it has taken enough blocks, or if the range ends below 2 GiB. -/
theorem envShared_iff (regular : mtd.Regular) (ideal : mtd.Ideal) (paged : Paged mtd)
    (aligned : mtd.erasesize.toNat ∣ offset.toNat) (pieced : Pieced mtd area)
    (whole : area.range.toNat = sectors.toNat * mtd.erasesize.toNat)
    (blocks : mtd.erasesize.toNat ∣ mtd.size.toNat) (shows : file.Shows mtd) :
    EnvShared mtd file area offset sectors ↔
      area.size = 0 ∨ offset.toNat + area.range.toNat < 2 ^ 31 ∨ ∃ turn, Ends mtd area offset turn ∧
          Nat.count (Taken mtd offset) turn < pieceCount mtd area := by
  constructor
  · intro shared
    by_contra neither
    rw [not_or, not_or] at neither
    obtain ⟨nonempty, large, goesOn⟩ := neither
    have size : 0 < area.size.toNat :=
      Nat.pos_of_ne_zero fun zero => nonempty (UInt32.toNat_inj.mp zero)
    have pieces : 0 < pieceCount mtd area := by
      apply Nat.pos_of_ne_zero
      intro none
      have product := pieceCount_mul pieced
      rw [none, Nat.zero_mul] at product
      omega
    have walks : ∀ turn, Nat.count (Taken mtd offset) turn < pieceCount mtd area →
        ¬ Ends mtd area offset turn := fun turn more ends => goesOn ⟨turn, ends, more⟩
    have word := range_lt (walks 0 (by rw [Nat.count_zero]; exact pieces))
    obtain ⟨after, returned⟩ := writeenv_succeeds regular ideal pieced
      ⟨sectors.toNat, by rw [whole, Nat.mul_comm]⟩
      (List.length_replicate : (List.replicate area.size.toNat (1 : UInt8)).length = _)
      ⟨fun _ => 0, []⟩ pieces walks
    obtain ⟨rc, read, _⟩ := shared.linuxReads _ after _ (List.replicate area.size.toNat 0)
      List.length_replicate List.length_replicate returned
    rw [linux_reads_nothing aligned whole size (by omega) word] at read
    injection read with both
    have equal := congrArg Prod.snd both
    rw [List.replicate_inj] at equal
    exact absurd (equal.2.resolve_left (by omega)) (by decide)
  · intro condition
    refine ⟨?_, ?_, fwEnvOpen_agrees⟩
    · intro flash after buf buf2 sized sized2 returned
      rcases condition with zero | small | ⟨turn, ends, more⟩
      · have empty : area.size.toNat = 0 := congrArg UInt32.toNat zero
        rw [empty, List.length_eq_zero_iff] at sized sized2
        refine ⟨0, ?_, zero.symm⟩
        rw [flashReadBuf_eq aligned, turnAmount_zero, blockFuel, flashReadLoop, zero,
          if_neg (by decide), sized, sized2]
        rfl
      · exact ⟨_, linux_reads regular ideal aligned pieced whole shows small sized sized2 returned,
          rfl⟩
      · obtain ⟨other, failed⟩ := @writeenv_fails mtd area offset regular ideal pieced buf flash
          sized turn ends more
        rw [returned] at failed
        cases failed
    · intro flash after buf buf2 rc sized sized2 returned success
      exact uBoot_reads_buf regular aligned pieced whole blocks shows ideal paged sized sized2
        success returned

end

def shownFile (mtd : MtdInfo Nand.Flash) : MtdFile where
  memGetBadBlock position :=
    if position < 0 ∨ mtd.size.toNat ≤ position then -1
    else if mtdBlockIsbad mtd (.ofNat position.toNat) = 0 then 0
    else 1
  memErase flash position len :=
    (0, { flash with contents := fun cell =>
      if position ≤ cell ∧ cell < position + len.toNat then 0xff else flash.contents cell })
  read flash position len := (List.range' position.toNat len.toNat).map flash.contents
  write flash position bytes :=
    (bytes.length, flash.program ((List.range' position.toNat bytes.length).zip bytes))

theorem shownFile_shows (mtd : MtdInfo Nand.Flash) : (shownFile mtd).Shows mtd where
  tested := by
    intro address inside
    simp only [shownFile]
    rw [if_neg (by omega)]
    split <;> decide
  bad := by
    intro address inside
    simp only [shownFile]
    rw [if_neg (by omega), Int.toNat_natCast]
    split
    · simp [*]
    · simp [*]
  outside := by
    intro position outside
    simp only [shownFile]
    rw [if_pos outside]
    decide
  read := by
    simp [shownFile]
  erased := by
    intro flash address len after erase cell lower upper
    cases erase
    exact if_pos ⟨by omega, by omega⟩
  kept := by
    intro flash address len after erase cell outside
    cases erase
    exact if_neg (by omega)
  write := by
    intro flash address bytes after _ write
    cases write
    simp [Nand.Flash.program]

/-- Four bytes in a range of two blocks, the first of them bad. -/
theorem envShared_iff_first_bad :
    let mtd := largePageFlash 0x100000 (· = 2)
    EnvShared mtd (shownFile mtd) ⟨4, 0x40000⟩ 0x40000 2 ↔
      (4 : UInt32) = 0 ∨ (0x40000 : UInt32).toNat + (0x40000 : UInt32).toNat < 2 ^ 31 ∨
        ∃ turn, Ends mtd ⟨4, 0x40000⟩ 0x40000 turn ∧
          Nat.count (Taken mtd 0x40000) turn < pieceCount mtd ⟨4, 0x40000⟩ := by
  intro mtd
  exact envShared_iff (largePageFlash_regular (by decide)) largePageFlash_ideal
    largePageFlash_paged (by decide) (.inr (by decide)) (by decide) (by decide)
    (shownFile_shows _)

/-- An environment at 2 GiB is written by U-Boot and not read by Linux. -/
theorem linux_reads_not_at_two_gib :
    let mtd := largePageFlash 0x100000000 (fun _ => false)
    (∃ flash, writeenv mtd ⟨4, 0x20000⟩ ⟨fun _ => 0xff, []⟩ 0x80000000 [1, 2, 3, 4] =
        .ok (0, flash) ∧
      flashReadBuf (shownFile mtd) (linuxDev mtd ⟨4, 0x20000⟩ 0x80000000 1) flash [0, 0, 0, 0] 4
        0x80000000 = .ok (-1, [0, 0, 0, 0])) ∧
    ¬ EnvShared mtd (shownFile mtd) ⟨4, 0x20000⟩ 0x80000000 1 := by
  intro mtd
  obtain ⟨⟨ret, flash⟩, wrote, rfl⟩ : ∃ result, writeenv mtd ⟨4, 0x20000⟩ ⟨fun _ => 0xff, []⟩
      0x80000000 [1, 2, 3, 4] = .ok result ∧ 0 = result.1 := Exec.Returns.exists (by decide +kernel)
  have read : flashReadBuf (shownFile mtd) (linuxDev mtd ⟨4, 0x20000⟩ 0x80000000 1) flash
      [0, 0, 0, 0] 4 0x80000000 = .ok (-1, [0, 0, 0, 0]) :=
    @linux_reads_nothing mtd _ ⟨4, 0x20000⟩ 0x80000000 1 (by decide) (by decide) (by decide)
      (by decide) (by decide) flash [0, 0, 0, 0]
  refine ⟨⟨flash, wrote, read⟩, ?_⟩
  intro shared
  obtain ⟨rc, read', _⟩ := shared.linuxReads _ flash _ [0, 0, 0, 0] rfl rfl wrote
  rw [read] at read'
  cases read'

end UBootV210.Environment
