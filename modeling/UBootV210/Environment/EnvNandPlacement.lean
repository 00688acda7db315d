import UBootV210.Environment.EnvNandBlocks

/-! # Where the environment is placed

An environment that `writeenv` has written is read back by `readenv`, from good blocks
in the range, unless the walk of `writeenv` does not end in the range. -/

namespace UBootV210.Environment

open Nand BitMask

section

variable {mtd : MtdInfo Nand.Flash} {flash : Nand.Flash} {word len : UInt32}

/-- A page is a power of two, and a block has whole pages. -/
def Paged (mtd : MtdInfo Nand.Flash) : Prop :=
  ∃ width, mtd.writesize.toNat = 2 ^ width ∧ mtd.writesize.toNat ≤ mtd.erasesize.toNat

variable (regular : mtd.Regular) (aligned : mtd.erasesize.toNat ∣ word.toNat)
  (short : len.toNat ≤ mtd.erasesize.toNat) (nonempty : 0 < len.toNat)
  (inside : word.toNat + len.toNat ≤ mtd.size.toNat) (good : mtdBlockIsbad mtd word.toUInt64 = 0)

include regular aligned short nonempty inside good

theorem checkSkipLen_piece :
    checkSkipLen mtd len (mtd.size.toNat + 1) word.toUInt64 0 0 0 = .ok (0, len) := by
  obtain ⟨width, power⟩ := regular.erasesize
  have start : word.toUInt64 &&& ~~~(mtd.erasesize - 1).toUInt64 = word.toUInt64 := by
    apply UInt64.toNat_inj.mp
    rw [toNat_and_high power]
    exact Nat.div_mul_cancel aligned
  have whole : blockOffset mtd word.toUInt64 = 0 := by
    apply UInt32.toNat_inj.mp
    rw [regular.toNat_blockOffset]
    exact Nat.mod_eq_zero_of_dvd aligned
  have more : (0 : UInt32) < len := UInt32.lt_iff_toNat_lt.mpr nonempty
  have before : ¬ mtd.size ≤ word.toUInt64 := by
    rw [UInt64.le_iff_toNat_le, UInt32.toNat_toUInt64]
    omega
  obtain ⟨rest, positive⟩ : ∃ rest, mtd.size.toNat = rest + 1 := ⟨mtd.size.toNat - 1, by omega⟩
  rw [checkSkipLen, if_pos more, if_neg before]
  rw [start, if_pos good, whole, UInt32.sub_zero, UInt32.zero_add, positive, checkSkipLen]
  rw [if_neg (by rw [UInt32.lt_iff_toNat_lt]; omega)]
  split
  · congr 2
    rw [UInt32.sub_eq_iff_eq_add, UInt32.add_comm, UInt32.sub_add_cancel]
  · rename_i notLess
    rw [UInt32.lt_iff_toNat_lt] at notLess
    congr 2
    exact UInt32.toNat_inj.mp (by omega)

theorem nandReadSkipBad_piece (ideal : mtd.Ideal) (paged : Paged mtd) :
    nandReadSkipBad mtd flash word.toUInt64 len mtd.size.toNat =
      .ok ⟨0, len, len, (List.range' word.toNat len.toNat).map flash.contents, flash⟩ := by
  have accepted : Accepted mtd word.toUInt64 len mtd.size.toNat 0 len := by
    refine ⟨?_, checkSkipLen_piece regular aligned short nonempty inside good, Int.le_refl 0,
      by omega⟩
    obtain ⟨blockWidth, block⟩ := regular.erasesize
    obtain ⟨width, page, fits⟩ := paged
    apply UInt64.toNat_inj.mp
    rw [toNat_and_low page, UInt32.toNat_toUInt64]
    apply Nat.mod_eq_zero_of_dvd
    apply Nat.dvd_trans _ aligned
    rw [page, block] at fits ⊢
    exact Nat.pow_dvd_pow 2 ((Nat.pow_le_pow_iff_right (by decide)).mp fits)
  have within := (outside_word_iff regular word len).mpr inside
  have some : len ≠ 0 := by
    rintro rfl
    exact absurd nonempty (by decide)
  obtain ⟨ret, success, transfer⟩ := @mtdRead_eq mtd ideal flash _ _ within some
  rw [nandReadSkipBad_eq accepted, if_pos rfl, transfer]
  dsimp only
  rw [if_pos success, UInt32.toNat_toUInt64]

end

/-! ## Reading the pieces -/

variable {buf : List UInt8} {turn : Nat}

section

variable {mtd : MtdInfo Nand.Flash} {config : EnvArea} {offset : UInt32} {flash : Nand.Flash}

theorem toNat_turnOffset : (turnOffset mtd offset turn).toNat =
    (offset.toNat + turn * mtd.erasesize.toNat) % 2 ^ 32 := by
  rw [turnOffset, UInt32.toNat_add, UInt32.toNat_mul, UInt32.toNat_ofNat']
  rw [Nat.add_mod_mod, Nat.add_mod, Nat.mod_mul_mod, ← Nat.add_mod]

variable (regular : mtd.Regular) (aligned : mtd.erasesize.toNat ∣ offset.toNat)

include regular aligned in
theorem turnOffset_aligned (turn : Nat) :
    mtd.erasesize.toNat ∣ (turnOffset mtd offset turn).toNat := by
  rw [toNat_turnOffset, Nat.dvd_mod_iff regular.erasesize_dvd]
  exact Nat.dvd_add aligned (Nat.dvd_mul_left _ _)

theorem length_storeAt (inside : position + bytes.length ≤ buf.length) :
    (storeAt buf position bytes).length = buf.length := by
  simp [storeAt]
  omega

theorem take_storeAt (inside : position + bytes.length ≤ buf.length) :
    (storeAt buf position bytes).take (position + bytes.length) = buf.take position ++ bytes := by
  have length : (buf.take position ++ bytes).length = position + bytes.length := by
    simp
    omega
  rw [storeAt, ← length, List.take_left]

variable (mtd config offset) in
structure ReadsOn (turn : Nat) : Prop where
  inRange : turnOffset mtd offset turn < offset + config.range
  inDevice : Taken mtd offset turn →
    (turnOffset mtd offset turn).toNat + (pieceSize mtd config).toNat ≤ mtd.size.toNat
  more : Nat.count (Taken mtd offset) turn < pieceCount mtd config

theorem readsOn_of_goesOn (goesOn : WritesOn mtd config offset turn) :
    ReadsOn mtd config offset turn := by
  obtain ⟨goes, more⟩ := goesOn
  rw [Ends, not_or, not_not] at goes
  refine ⟨goes.1, ?_, more⟩
  intro taken
  by_contra beyond
  exact goes.2 ⟨taken, .inr (by omega)⟩

theorem storeAt_piece (pieced : Pieced mtd config) (contents : Nat → UInt8)
    (sized : buf.length = config.size.toNat) (taken : Taken mtd offset turn)
    (more : Nat.count (Taken mtd offset) turn < pieceCount mtd config) :
    ∃ stored, storeAt buf (turnAmount mtd config offset turn).toNat
        ((List.range' (turnOffset mtd offset turn).toNat
          (pieceSize mtd config).toNat).map contents) =
          stored ∧ stored.length = config.size.toNat ∧
      ∀ turns, stored.take (turnAmount mtd config offset (turn + 1)).toNat ++
          (pieceAddresses (takenPieces mtd config offset (turn + 1) turns)).map contents =
        buf.take (turnAmount mtd config offset turn).toNat ++
          (pieceAddresses (takenPieces mtd config offset turn (turns + 1))).map contents := by
  have fits : (turnAmount mtd config offset turn).toNat +
      ((List.range' (turnOffset mtd offset turn).toNat (pieceSize mtd config).toNat).map
        contents).length ≤ buf.length := by
    rw [List.length_map, List.length_range', sized]
    exact turnAmount_add_le pieced more
  have front := take_storeAt fits
  rw [List.length_map, List.length_range', ← toNat_turnAmount_succ pieced taken more] at front
  refine ⟨_, rfl, (length_storeAt fits).trans sized, ?_⟩
  intro turns
  rw [takenPieces_succ_of_taken taken, pieceAddresses_cons, List.map_append, ← List.append_assoc,
    front]

variable (ideal : mtd.Ideal) (paged : Paged mtd) (pieced : Pieced mtd config)
include regular aligned ideal paged pieced

-- The induction is on the turns, which are those of the walk that has written.
theorem readenvLoop_returns {turns : Nat} {fuel turn : Nat} {buf : List UInt8}
    (enough : turns < fuel) (sized : buf.length = config.size.toNat)
    (all : Nat.count (Taken mtd offset) (turn + turns) = pieceCount mtd config)
    (goesOn : ∀ later ∈ List.range' turn turns, ReadsOn mtd config offset later) :
    readenvLoop mtd config (offset + config.range) fuel (turnOffset mtd offset turn)
        (turnAmount mtd config offset turn) (pieceSize mtd config) buf flash =
      .ok (0, buf.take (turnAmount mtd config offset turn).toNat ++
        (pieceAddresses (takenPieces mtd config offset turn turns)).map flash.contents, flash) := by
  obtain ⟨fuel, rfl⟩ : ∃ rest, fuel = rest + 1 := ⟨fuel - 1, by omega⟩
  induction turns generalizing fuel turn buf with
  | zero =>
    have finished := turnAmount_eq_of_all pieced all
    rw [Nat.add_zero] at finished
    rw [readenvLoop, finished, if_neg (fun both => UInt32.lt_irrefl _ both.1),
      if_neg (not_not.mpr rfl), ← sized, List.take_length]
    simp [takenPieces]
  | succ turns induction =>
    rw [List.range'_succ, List.forall_mem_cons] at goesOn
    obtain ⟨⟨inRange, inDevice, more⟩, later⟩ := goesOn
    have less := (turnAmount_lt_iff pieced more.le).mpr more
    rw [← Nat.add_assoc, ← Nat.add_right_comm] at all
    obtain ⟨fuel, rfl⟩ : ∃ rest, fuel = rest + 1 := ⟨fuel - 1, by omega⟩
    rw [readenvLoop, if_pos ⟨less, inRange⟩]
    by_cases taken : Taken mtd offset turn
    · have positive := @pieceSize_pos _ mtd config (Nat.zero_lt_of_lt more)
      rw [if_neg taken.not_bad, nandReadSkipBad_piece regular
        (turnOffset_aligned regular aligned turn) pieceSize_le positive (inDevice taken)
        taken ideal paged]
      simp only [Exec.ok_bind]
      obtain ⟨stored, storing, length, pieces⟩ :=
        storeAt_piece pieced flash.contents sized taken more
      rw [if_neg (not_not.mpr rfl), turnOffset_succ, turnAmount_succ_of_taken taken, storing,
        induction length all later _ (by omega), pieces]
    · rw [if_pos (show mtdBlockIsbad mtd _ ≠ 0 from taken), turnOffset_succ,
        turnAmount_succ_of_bad taken, takenPieces_succ_of_bad taken]
      exact induction sized all later _ (by omega)

end

section

variable (mtd : MtdInfo Nand.Flash) (config : EnvArea) (offset : UInt32)

def RangeGood (block : Nat) : Prop :=
  block * mtd.erasesize.toNat + (pieceSize mtd config).toNat ≤ config.range.toNat ∧
    offset.toNat + block * mtd.erasesize.toNat + (pieceSize mtd config).toNat ≤ mtd.size.toNat ∧
    mtdBlockIsbad mtd (.ofNat (offset.toNat + block * mtd.erasesize.toNat)) = 0

instance : DecidablePred (RangeGood mtd config offset) := fun _ =>
  inferInstanceAs (Decidable (_ ∧ _ ∧ _))

def TooFew : Prop :=
  Nat.count (RangeGood mtd config offset) (config.range.toNat / mtd.erasesize.toNat + 1) <
    pieceCount mtd config

/-- What should hold of a write of the environment. -/
structure EnvPlaced (contents : Nat → UInt8) (buf buf2 : List UInt8) : Prop where
  readBack : ∀ flash, writeenv mtd config ⟨contents, []⟩ offset buf = .ok (0, flash) →
    readenv mtd config flash offset buf2 = .ok (0, buf, flash)
  good : ∀ flash, writeenv mtd config ⟨contents, []⟩ offset buf = .ok (0, flash) →
    ∀ cell ∈ flash.programmed, ¬ mtd.Bad (cell.1 / mtd.erasesize.toNat)
  inside : ∀ flash, writeenv mtd config ⟨contents, []⟩ offset buf = .ok (0, flash) →
    ∀ cell ∈ flash.programmed, offset.toNat ≤ cell.1 ∧ cell.1 < offset.toNat + config.range.toNat
  tooFew : TooFew mtd config offset →
    ∃ flash, writeenv mtd config ⟨contents, []⟩ offset buf = .ok (1, flash)

variable {mtd config offset}

theorem turnOffset_zero : turnOffset mtd offset 0 = offset := by
  apply UInt32.toNat_inj.mp
  rw [toNat_turnOffset, Nat.zero_mul, Nat.add_zero, Nat.mod_eq_of_lt offset.toNat_lt]

theorem turnAmount_zero : turnAmount mtd config offset 0 = 0 := by
  simp [turnAmount]

theorem writeenv_eq : writeenv mtd config flash offset buf =
      writeenvFrom mtd config offset buf (walkFuel mtd config) 0 flash := by
  rw [writeenv, writeenvFrom, turnOffset_zero, turnAmount_zero]

theorem range_lt (goesOn : ¬ Ends mtd config offset 0) :
    offset.toNat + config.range.toNat < 2 ^ 32 := by
  rw [Ends, not_or, turnOffset_zero, UInt32.lt_iff_toNat_lt, UInt32.toNat_add] at goesOn
  have range := config.range.toNat_lt
  by_contra beyond
  omega

variable (small : offset.toNat + config.range.toNat < 2 ^ 32)
  (nonempty : 0 < (pieceSize mtd config).toNat)
include small nonempty

theorem toNat_turnOffset_inside
    (inside : turn * mtd.erasesize.toNat + (pieceSize mtd config).toNat ≤ config.range.toNat) :
    (turnOffset mtd offset turn).toNat = offset.toNat + turn * mtd.erasesize.toNat := by
  rw [toNat_turnOffset]
  exact Nat.mod_eq_of_lt (by omega)

theorem rangeGood_iff
    (inside : turn * mtd.erasesize.toNat + (pieceSize mtd config).toNat ≤ config.range.toNat) :
    RangeGood mtd config offset turn ↔ Taken mtd offset turn ∧
      (turnOffset mtd offset turn).toNat + (pieceSize mtd config).toNat ≤ mtd.size.toNat := by
  have word := toNat_turnOffset_inside small nonempty inside
  have same : (turnOffset mtd offset turn).toUInt64 =
      .ofNat (offset.toNat + turn * mtd.erasesize.toNat) := by
    rw [← word, UInt64.ofNat_uInt32ToNat]
  rw [RangeGood, Taken, same, word]
  constructor
  · rintro ⟨_, inDevice, good⟩
    exact ⟨good, inDevice⟩
  · rintro ⟨good, inDevice⟩
    exact ⟨inside, inDevice, good⟩

theorem inside_of_enough (enough : ¬ TooFew mtd config offset)
    (more : Nat.count (Taken mtd offset) turn < pieceCount mtd config) :
    turn * mtd.erasesize.toNat + (pieceSize mtd config).toNat ≤ config.range.toNat := by
  by_contra beyond
  apply enough
  have fewer : Nat.count (RangeGood mtd config offset) turn ≤ Nat.count (Taken mtd offset) turn :=
    Nat.count_mono_left fun _ _ good => ((rangeGood_iff small nonempty good.1).mp good).1
  have none : Nat.count (RangeGood mtd config offset)
      (config.range.toNat / mtd.erasesize.toNat + 1) ≤
      Nat.count (RangeGood mtd config offset) turn := by
    rcases Nat.le_total turn (config.range.toNat / mtd.erasesize.toNat + 1) with before | after
    · apply Nat.le_of_eq
      apply BlockWalk.count_eq_of_none before
      intro block above _ good
      have grows := Nat.mul_le_mul_right mtd.erasesize.toNat above
      have inside := good.1
      omega
    · exact Nat.count_monotone _ after
  rw [TooFew]
  omega

end

/-! ## Writing and reading back -/

section

variable {mtd : MtdInfo Nand.Flash} {config : EnvArea} {offset : UInt32}
  (regular : mtd.Regular) (ideal : mtd.Ideal) (paged : Paged mtd)
  (aligned : mtd.erasesize.toNat ∣ offset.toNat) (pieced : Pieced mtd config)

theorem mem_takenPieces
    (member : address ∈ pieceAddresses (takenPieces mtd config offset turn turns)) :
    ∃ later, turn ≤ later ∧ later < turn + turns ∧ Taken mtd offset later ∧
      (turnOffset mtd offset later).toNat ≤ address ∧
      address < (turnOffset mtd offset later).toNat + (pieceSize mtd config).toNat := by
  obtain ⟨piece, taken, inPiece⟩ := List.mem_flatMap.mp member
  obtain ⟨later, kept, rfl⟩ := List.mem_map.mp taken
  obtain ⟨ranged, good⟩ := List.mem_filter.mp kept
  obtain ⟨above, below⟩ := List.mem_range'_1.mp ranged
  obtain ⟨lower, upper⟩ := List.mem_range'_1.mp inPiece
  exact ⟨later, above, below, of_decide_eq_true good, lower, upper⟩

theorem length_taken (turns : Nat) : ((List.range' 0 turns).filter (Taken mtd offset)).length =
    Nat.count (Taken mtd offset) turns := by
  rw [Nat.count, List.countP_eq_length_filter, List.range_eq_range']

theorem length_takenPieces (turns : Nat) :
    (pieceAddresses (takenPieces mtd config offset 0 turns)).length =
      Nat.count (Taken mtd offset) turns * (pieceSize mtd config).toNat := by
  rw [pieceAddresses, List.length_flatMap, takenPieces, List.map_map, ← length_taken]
  simp [Function.comp_def]

theorem nodup_takenPieces {turns : Nat}
    (inside : ∀ turn < turns, Taken mtd offset turn → (turnOffset mtd offset turn).toNat =
      offset.toNat + turn * mtd.erasesize.toNat) :
    (pieceAddresses (takenPieces mtd config offset 0 turns)).Nodup := by
  have short := @pieceSize_le _ mtd config
  rw [pieceAddresses, List.nodup_flatMap]
  refine ⟨fun piece _ => List.nodup_range', ?_⟩
  rw [takenPieces, List.pairwise_map, ← List.range_eq_range']
  have ordered := List.pairwise_lt_range (n := turns)
  apply (ordered.filter _).imp_of_mem
  intro first second firstKept secondKept before address inFirst inSecond
  obtain ⟨firstRanged, firstTaken⟩ := List.mem_filter.mp firstKept
  obtain ⟨secondRanged, secondTaken⟩ := List.mem_filter.mp secondKept
  have firstStart := inside first (List.mem_range.mp firstRanged) (of_decide_eq_true firstTaken)
  have secondStart := inside second (List.mem_range.mp secondRanged) (of_decide_eq_true secondTaken)
  have upper := (List.mem_range'_1.mp inFirst).2
  have lower := (List.mem_range'_1.mp inSecond).1
  have apart := Nat.mul_le_mul_right mtd.erasesize.toNat (Nat.succ_le_of_lt before)
  rw [Nat.succ_mul] at apart
  omega

theorem map_written (pieced : Pieced mtd config) (contents : Nat → UInt8)
    (sized : buf.length = config.size.toNat)
    (all : Nat.count (Taken mtd offset) turns = pieceCount mtd config)
    (inside : ∀ turn < turns, Taken mtd offset turn → (turnOffset mtd offset turn).toNat =
      offset.toNat + turn * mtd.erasesize.toNat) :
    (pieceAddresses (takenPieces mtd config offset 0 turns)).map (storeCells contents
      ((pieceAddresses (takenPieces mtd config offset 0 turns)).zip buf)) = buf := by
  have length : (pieceAddresses (takenPieces mtd config offset 0 turns)).length = buf.length := by
    rw [length_takenPieces, all, pieceCount_mul pieced, sized]
  have nodup := @nodup_takenPieces mtd config offset turns inside
  have stored := @map_storeCells contents
    ((pieceAddresses (takenPieces mtd config offset 0 turns)).zip buf)
    (by rw [List.map_fst_zip length.le]; exact nodup)
  rw [List.map_fst_zip length.le, List.map_snd_zip length.ge] at stored
  exact stored

theorem taken_of_count_succ
    (more : Nat.count (Taken mtd offset) turn < Nat.count (Taken mtd offset) (turn + 1)) :
    Taken mtd offset turn := by
  by_contra bad
  rw [Nat.count_succ, if_neg bad] at more
  exact Nat.lt_irrefl _ more

section

include regular

theorem erasesize_mul_blocks : mtd.erasesize.toNat * (2 ^ 32 / mtd.erasesize.toNat) = 2 ^ 32 :=
  Nat.mul_div_cancel' regular.erasesize_dvd

theorem turnOffset_mod :
    turnOffset mtd offset (turn % (2 ^ 32 / mtd.erasesize.toNat)) = turnOffset mtd offset turn := by
  have folded := Nat.mul_mod_mul_left mtd.erasesize.toNat turn (2 ^ 32 / mtd.erasesize.toNat)
  rw [erasesize_mul_blocks regular] at folded
  apply UInt32.toNat_inj.mp
  rw [toNat_turnOffset, toNat_turnOffset, Nat.mul_comm, ← folded, Nat.add_mod_mod,
    Nat.mul_comm turn]

theorem Ends.mod (ends : Ends mtd config offset turn) :
    Ends mtd config offset (turn % (2 ^ 32 / mtd.erasesize.toNat)) := by
  rw [Ends, Taken, turnOffset_mod regular]
  exact ends

omit regular in
theorem walkFuel_gt : 2 ^ 32 / mtd.erasesize.toNat < walkFuel mtd config := by
  rw [walkFuel, Nat.mul_add]
  omega

end

section

variable {buf buf2 : List UInt8} {flash after : Nand.Flash} (sized : buf.length = config.size.toNat)

include regular ideal pieced sized

theorem writeenv_fails {turn : Nat} (ends : Ends mtd config offset turn)
    (more : Nat.count (Taken mtd offset) turn < pieceCount mtd config) :
    ∃ after, writeenv mtd config flash offset buf = .ok (1, after) := by
  have blocks : 0 < 2 ^ 32 / mtd.erasesize.toNat := by
    apply Nat.pos_of_ne_zero
    intro zero
    have product := erasesize_mul_blocks regular
    rw [zero, Nat.mul_zero] at product
    exact absurd product (by decide)
  have early := Nat.mod_lt turn blocks
  have fuel := @walkFuel_gt mtd config
  have fewer := Nat.lt_of_le_of_lt
    (Nat.count_monotone (Taken mtd offset) (Nat.mod_le turn (2 ^ 32 / mtd.erasesize.toNat))) more
  rw [writeenv_eq]
  exact writeenvFrom_fails regular ideal pieced sized (Nat.zero_le _) (by omega)
    (ends.mod regular) fewer

theorem writeenv_inside (enough : ¬ TooFew mtd config offset)
    (returned : writeenv mtd config flash offset buf = .ok (0, after)) :
    ∃ turns, turns ≤ 2 ^ 32 / mtd.erasesize.toNat ∧
      Nat.count (Taken mtd offset) turns = pieceCount mtd config ∧
      (∀ turn < turns, WritesOn mtd config offset turn) ∧
      (∀ turn < turns,
        turn * mtd.erasesize.toNat + (pieceSize mtd config).toNat ≤ config.range.toNat ∧
          (turnOffset mtd offset turn).toNat = offset.toNat + turn * mtd.erasesize.toNat) ∧
      after = flash.program ((pieceAddresses (takenPieces mtd config offset 0 turns)).zip buf) := by
  rw [writeenv_eq] at returned
  obtain ⟨turns, all, goesOn, stored⟩ :=
    writeenvFrom_returns regular ideal pieced sized (by simp) returned
  rw [turnAmount_zero] at stored
  rw [Nat.zero_add] at all
  have walked : ∀ turn < turns, WritesOn mtd config offset turn := by
    intro turn before
    exact goesOn turn (by simpa using before)
  have inside : ∀ turn < turns,
      turn * mtd.erasesize.toNat + (pieceSize mtd config).toNat ≤ config.range.toNat ∧
        (turnOffset mtd offset turn).toNat = offset.toNat + turn * mtd.erasesize.toNat := by
    intro turn before
    have small := range_lt (walked 0 (Nat.zero_lt_of_lt before)).1
    have nonempty := @pieceSize_pos _ mtd config (Nat.zero_lt_of_lt (walked turn before).2)
    have fits := inside_of_enough small nonempty enough (walked turn before).2
    exact ⟨fits, toNat_turnOffset_inside small nonempty fits⟩
  refine ⟨turns, ?_, all, walked, inside, stored⟩
  by_contra more
  have reached := (inside (2 ^ 32 / mtd.erasesize.toNat) (by omega)).1
  have range := config.range.toNat_lt
  rw [Nat.mul_comm, erasesize_mul_blocks regular] at reached
  omega

include aligned

theorem written_good (enough : ¬ TooFew mtd config offset)
    (returned : writeenv mtd config ⟨contents, []⟩ offset buf = .ok (0, after)) :
    ∀ cell ∈ after.programmed, ¬ mtd.Bad (cell.1 / mtd.erasesize.toNat) ∧
      offset.toNat ≤ cell.1 ∧ cell.1 < offset.toNat + config.range.toNat := by
  obtain ⟨turns, _, _, walked, inside, rfl⟩ :=
    writeenv_inside regular ideal pieced sized enough returned
  rintro ⟨address, byte⟩ member
  obtain ⟨turn, _, before, taken, lower, upper⟩ :=
    mem_takenPieces (List.of_mem_zip member).1
  rw [Nat.zero_add] at before
  obtain ⟨fits, start⟩ := inside turn before
  have short := @pieceSize_le _ mtd config
  refine ⟨?_, by omega, by omega⟩
  have block : address / mtd.erasesize.toNat * mtd.erasesize.toNat =
      (turnOffset mtd offset turn).toNat := by
    obtain ⟨index, multiple⟩ := turnOffset_aligned regular aligned turn
    rw [multiple] at lower upper ⊢
    have quotient : address / mtd.erasesize.toNat = index := by
      apply Nat.div_eq_of_lt_le
      · rw [Nat.mul_comm]
        exact lower
      · rw [Nat.succ_mul, Nat.mul_comm]
        omega
    rw [quotient, Nat.mul_comm]
  have inDevice := (readsOn_of_goesOn (walked turn before)).inDevice taken
  have word := (turnOffset mtd offset turn).toNat_lt
  apply (MtdInfo.Regular.isbad_of_toNat_eq ?_ ?_ ?_).mp taken
  · rw [UInt32.toNat_toUInt64, block]
  · rw [UInt32.toNat_toUInt64]
    omega
  · rw [UInt32.toNat_toUInt64]
    omega

include paged

theorem readenv_returns (few : turns ≤ 2 ^ 32 / mtd.erasesize.toNat)
    (all : Nat.count (Taken mtd offset) turns = pieceCount mtd config)
    (goesOn : ∀ turn < turns, ReadsOn mtd config offset turn) :
    readenv mtd config flash offset buf = .ok (0,
      (pieceAddresses (takenPieces mtd config offset 0 turns)).map flash.contents, flash) := by
  have fuel := @walkFuel_gt mtd config
  have block : mtd.erasesize ≠ 0 := by
    intro zero
    have positive := regular.positive
    rw [zero] at positive
    exact absurd positive (by decide)
  have read := @readenvLoop_returns mtd config offset flash regular aligned ideal paged pieced turns
    (walkFuel mtd config) 0 buf (by omega) sized (by rw [Nat.zero_add]; exact all)
    (fun turn member => goesOn turn (by simpa using member))
  rw [turnOffset_zero, turnAmount_zero] at read
  rw [readenv, if_neg block, read]
  rfl

theorem written_readBack (sized2 : buf2.length = config.size.toNat)
    (enough : ¬ TooFew mtd config offset)
    (returned : writeenv mtd config flash offset buf = .ok (0, after)) :
    readenv mtd config after offset buf2 = .ok (0, buf, after) := by
  obtain ⟨turns, few, all, walked, inside, rfl⟩ :=
    writeenv_inside regular ideal pieced sized enough returned
  rw [readenv_returns regular ideal paged aligned pieced sized2 few all fun turn before =>
    readsOn_of_goesOn (walked turn before), Nand.Flash.program, map_written pieced flash.contents
      sized all fun turn before _ => (inside turn before).2]

end

theorem ends_of_whole_blocks (regular : mtd.Regular)
    (whole : mtd.erasesize.toNat ∣ config.range.toNat) (tooFew : TooFew mtd config offset) :
    ∃ turn, Ends mtd config offset turn ∧
      Nat.count (Taken mtd offset) turn < pieceCount mtd config := by
  by_contra goesOn
  have walks : ∀ turn, Nat.count (Taken mtd offset) turn < pieceCount mtd config →
      ¬ Ends mtd config offset turn := fun turn more ends => goesOn ⟨turn, ends, more⟩
  have first : Nat.count (Taken mtd offset) 0 < pieceCount mtd config := by
    rw [Nat.count_zero]
    exact Nat.zero_lt_of_lt tooFew
  have small := range_lt (walks 0 first)
  obtain ⟨blocks, range⟩ := whole
  have quotient : config.range.toNat / mtd.erasesize.toNat = blocks := by
    rw [range, Nat.mul_div_cancel_left _ regular.positive]
  rw [TooFew, quotient] at tooFew
  have nonempty := @pieceSize_pos _ mtd config (Nat.zero_lt_of_lt first)
  have short := @pieceSize_le _ mtd config
  -- Every block of the range that is taken is a good one.
  have fewer : ∀ turn ≤ blocks, Nat.count (Taken mtd offset) turn ≤
      Nat.count (RangeGood mtd config offset) turn := by
    intro turn
    induction turn with
    | zero =>
      intro _
      rw [Nat.count_zero]
      exact Nat.zero_le _
    | succ turn induction =>
      intro before
      have counted := induction (Nat.le_of_succ_le before)
      have less := Nat.count_monotone (RangeGood mtd config offset) (by omega : turn ≤ blocks + 1)
      have more : Nat.count (Taken mtd offset) turn < pieceCount mtd config := by omega
      rw [Nat.count_succ, Nat.count_succ]
      by_cases taken : Taken mtd offset turn
      · have inRange := Nat.mul_le_mul_right mtd.erasesize.toNat before
        rw [Nat.succ_mul, Nat.mul_comm blocks, ← range] at inRange
        have inDevice := (readsOn_of_goesOn ⟨walks turn more, more⟩).inDevice taken
        have good := (rangeGood_iff small nonempty (by omega)).mpr ⟨taken, inDevice⟩
        rw [if_pos taken, if_pos good]
        omega
      · rw [if_neg taken]
        omega
  have last := fewer blocks (Nat.le_refl _)
  have mono := Nat.count_monotone (RangeGood mtd config offset) (Nat.le_add_right blocks 1)
  have goes := walks blocks (by omega)
  rw [Ends, not_or, not_not, UInt32.lt_iff_toNat_lt, UInt32.toNat_add, toNat_turnOffset,
    Nat.mul_comm blocks, ← range] at goes
  exact Nat.lt_irrefl _ goes.1

theorem writeenv_succeeds (regular : mtd.Regular) (ideal : mtd.Ideal) (pieced : Pieced mtd config)
    (whole : mtd.erasesize.toNat ∣ config.range.toNat) (sized : buf.length = config.size.toNat)
    (flash : Nand.Flash) (nonempty : 0 < pieceCount mtd config)
    (goesOn : ∀ turn, Nat.count (Taken mtd offset) turn < pieceCount mtd config →
      ¬ Ends mtd config offset turn) :
    ∃ after, writeenv mtd config flash offset buf = .ok (0, after) := by
  have first : Nat.count (Taken mtd offset) 0 < pieceCount mtd config := by
    exact nonempty
  have small := range_lt (goesOn 0 first)
  have positive := @pieceSize_pos _ mtd config nonempty
  have enough : ¬ TooFew mtd config offset := by
    intro tooFew
    obtain ⟨turn, ends, more⟩ := ends_of_whole_blocks regular whole tooFew
    exact goesOn turn more ends
  have reached : ∃ turn, pieceCount mtd config ≤ Nat.count (Taken mtd offset) turn := by
    refine ⟨config.range.toNat / mtd.erasesize.toNat + 1, ?_⟩
    by_contra few
    apply enough
    apply Nat.lt_of_le_of_lt _ (Nat.lt_of_not_le few)
    exact Nat.count_mono_left fun _ _ good => ((rangeGood_iff small positive good.1).mp good).1
  have least := Nat.find_spec reached
  have before : ∀ turn < Nat.find reached,
      Nat.count (Taken mtd offset) turn < pieceCount mtd config := by
    intro turn less
    exact Nat.lt_of_not_le (Nat.find_min reached less)
  generalize Nat.find reached = turns at least before
  cases turns with
  | zero =>
    exact absurd least (Nat.not_le_of_lt nonempty)
  | succ last =>
    have more := before last (Nat.lt_succ_self last)
    have inside := inside_of_enough small positive enough more
    have all := Nat.le_antisymm (count_succ_le more) least
    have blocks : last < 2 ^ 32 / mtd.erasesize.toNat := by
      apply (Nat.mul_lt_mul_left regular.positive).mp
      rw [erasesize_mul_blocks regular, Nat.mul_comm]
      omega
    have fuel := @walkFuel_gt mtd config
    rw [writeenv_eq]
    apply writeenvFrom_succeeds regular ideal pieced sized (by omega : last + 1 < _)
    · rw [Nat.zero_add]
      exact all
    · intro later member
      have few := before later (by simpa using member)
      exact ⟨goesOn later few, few⟩

section

variable (contents : Nat → UInt8) {buf buf2 : List UInt8}
  (sized : buf.length = config.size.toNat) (sized2 : buf2.length = config.size.toNat)
include regular ideal paged aligned pieced sized sized2

theorem envPlaced_of_ends
    (condition : TooFew mtd config offset → ∃ turn, Ends mtd config offset turn ∧
      Nat.count (Taken mtd offset) turn < pieceCount mtd config) :
    EnvPlaced mtd config offset contents buf buf2 := by
  have fails : TooFew mtd config offset →
      ∃ flash, writeenv mtd config ⟨contents, []⟩ offset buf = .ok (1, flash) := by
    intro tooFew
    obtain ⟨turn, ends, more⟩ := condition tooFew
    exact writeenv_fails regular ideal pieced sized ends more
  have enough : ∀ flash, writeenv mtd config ⟨contents, []⟩ offset buf = .ok (0, flash) →
      ¬ TooFew mtd config offset := by
    intro flash returned tooFew
    obtain ⟨failed, returned'⟩ := fails tooFew
    rw [returned] at returned'
    cases returned'
  refine ⟨?_, ?_, ?_, fails⟩
  · intro flash returned
    exact written_readBack regular ideal paged aligned pieced sized sized2
      (enough flash returned) returned
  · intro flash returned cell member
    exact (written_good regular ideal aligned pieced sized (enough flash returned) returned cell
      member).1
  · intro flash returned cell member
    exact (written_good regular ideal aligned pieced sized (enough flash returned) returned cell
      member).2

/-- The environment is placed as it should be exactly if, where the range holds too few
good blocks, the walk through the 32-bit offsets ends before it has taken enough blocks. -/
theorem envPlaced_iff : EnvPlaced mtd config offset contents buf buf2 ↔
      (TooFew mtd config offset → ∃ turn, Ends mtd config offset turn ∧
        Nat.count (Taken mtd offset) turn < pieceCount mtd config) := by
  constructor
  · intro placed tooFew
    obtain ⟨flash, returned⟩ := placed.tooFew tooFew
    by_contra goesOn
    rw [writeenv_eq] at returned
    refine writeenvFrom_ne_one regular ideal pieced sized ?_ ?_ returned
    · intro turn more ends
      exact goesOn ⟨turn, ends, more⟩
    · rw [Nat.count_zero]
      exact Nat.zero_le _
  · exact envPlaced_of_ends regular ideal paged aligned pieced contents sized sized2

end

end

theorem largePageFlash_paged : Paged (largePageFlash size bad) :=
  ⟨11, rfl, (by decide : (0x800 : UInt32).toNat ≤ (0x20000 : UInt32).toNat)⟩

/-- Four bytes in a range of two blocks, the first of them bad. -/
theorem envPlaced_iff_first_bad :
    let mtd := largePageFlash 0x100000 (· = 2)
    EnvPlaced mtd ⟨4, 0x40000⟩ 0x40000 (fun _ => 0xff) [1, 2, 3, 4] [0, 0, 0, 0] ↔
      (TooFew mtd ⟨4, 0x40000⟩ 0x40000 → ∃ turn, Ends mtd ⟨4, 0x40000⟩ 0x40000 turn ∧
        Nat.count (Taken mtd 0x40000) turn < pieceCount mtd ⟨4, 0x40000⟩) := by
  intro mtd
  exact envPlaced_iff (largePageFlash_regular (by decide)) largePageFlash_ideal
    largePageFlash_paged (by decide) (.inr (by decide)) _ rfl rfl

/-- The walk leaves a range of less than a block at the end of 4 GiB: the environment is
written to the start of the device. -/
theorem writeenv_leaves_range :
    let mtd := largePageFlash 0x100000000 (· = 0x7fff)
    (writeenv mtd ⟨4, 4⟩ ⟨fun _ => 0xff, []⟩ 0xfffe0000 [1, 2, 3, 4]).map
        (fun result => (result.1, result.2.programmed)) =
      .ok (0, [(0, 1), (1, 2), (2, 3), (3, 4)]) ∧
    TooFew mtd ⟨4, 4⟩ 0xfffe0000 ∧
    ¬ EnvPlaced mtd ⟨4, 4⟩ 0xfffe0000 (fun _ => 0xff) [1, 2, 3, 4] [0, 0, 0, 0] := by
  intro mtd
  have returns : (writeenv mtd ⟨4, 4⟩ ⟨fun _ => 0xff, []⟩ 0xfffe0000 [1, 2, 3, 4]).map
      (fun result => (result.1, result.2.programmed)) =
        .ok (0, [(0, 1), (1, 2), (2, 3), (3, 4)]) := by
    decide +kernel
  have tooFew : TooFew mtd ⟨4, 4⟩ 0xfffe0000 := by
    rw [TooFew]
    decide +kernel
  refine ⟨returns, tooFew, ?_⟩
  intro placed
  obtain ⟨flash, failed⟩ := placed.tooFew tooFew
  rw [failed] at returns
  injection returns with both
  injection both with one
  cases one

end UBootV210.Environment
