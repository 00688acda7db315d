import UBootV210.Nand.SkipBadWalk

/-! # Writing around bad blocks and reading back

A write around bad blocks is read back, and stays in its window, exactly when the
walk of its loop is the walk of `check_skip_len`. -/

namespace UBootV210.Nand

/-! ## A flash whose transfers succeed -/

def storeCells (contents : Nat → UInt8) (cells : List (Nat × UInt8)) : Nat → UInt8 :=
  cells.foldl (fun contents cell => Function.update contents cell.1 cell.2) contents

structure Flash where
  contents : Nat → UInt8
  programmed : List (Nat × UInt8)

def Flash.program (flash : Flash) (cells : List (Nat × UInt8)) : Flash :=
  ⟨storeCells flash.contents cells, flash.programmed ++ cells⟩

structure MtdInfo.Ideal (mtd : MtdInfo Flash) : Prop where
  read : ∀ flash offset len, mtd.read flash offset len =
    ⟨0, len, (List.range' offset.toNat len.toNat).map flash.contents, flash⟩
  write : ∀ flash offset data, mtd.write flash offset data = ⟨0, UInt32.ofNat data.length, [],
      flash.program ((List.range' offset.toNat data.length).zip data)⟩

theorem storeCells_of_notMem
    (absent : address ∉ cells.map Prod.fst) :
    storeCells contents cells address = contents address := by
  induction cells generalizing contents with
  | nil => rfl
  | cons cell cells induction =>
    rw [List.map_cons, List.mem_cons, not_or] at absent
    rw [storeCells, List.foldl_cons]
    change storeCells _ cells address = _
    rw [induction absent.2, Function.update_of_ne absent.1]

theorem storeCells_append :
    storeCells contents (before ++ after) = storeCells (storeCells contents before) after :=
  List.foldl_append

theorem map_storeCells {contents : Nat → UInt8} {cells : List (Nat × UInt8)}
    (nodup : (cells.map Prod.fst).Nodup) :
    (cells.map Prod.fst).map (storeCells contents cells) = cells.map Prod.snd := by
  induction cells generalizing contents with
  | nil => rfl
  | cons cell cells induction =>
    rw [List.map_cons, List.nodup_cons] at nodup
    rw [List.map_cons, List.map_cons, List.map_cons, storeCells, List.foldl_cons]
    change storeCells _ cells cell.1 :: (cells.map Prod.fst).map (storeCells _ cells) = _
    rw [induction nodup.2, storeCells_of_notMem nodup.1, Function.update_self]

theorem Flash.program_nil (flash : Flash) : flash.program [] = flash := by
  simp [Flash.program, storeCells]

theorem Flash.program_append (flash : Flash) (before after : List (Nat × UInt8)) :
    (flash.program before).program after = flash.program (before ++ after) := by
  simp only [Flash.program, storeCells_append, List.append_assoc]

variable {flash : Flash}

section

variable {mtd : MtdInfo Flash} (regular : mtd.Regular) (ideal : mtd.Ideal)
include ideal

theorem mtdWrite_eq_of_success
    (long : len.toNat ≤ buffer.length) (success : (mtdWrite mtd flash offset len buffer).ret = 0) :
    outside mtd offset len = false ∧ mtdWrite mtd flash offset len buffer =
      ⟨0, len, [], flash.program
        ((List.range' offset.toNat len.toNat).zip (buffer.take len.toNat))⟩ := by
  rw [mtdWrite] at success ⊢
  split at success
  · cases success
  case isFalse inside =>
    split at success
    · cases success
    case isFalse writeable =>
      refine ⟨Bool.not_eq_true _ ▸ inside, ?_⟩
      rw [if_neg inside, if_neg writeable]
      by_cases empty : len = 0
      · rw [if_pos empty, empty]
        exact congrArg (Transfer.mk 0 0 []) flash.program_nil.symm
      · rw [if_neg empty, ideal.write, List.length_take, Nat.min_eq_left long, UInt32.ofNat_toNat]

theorem mtdRead_eq {flash : Flash} {offset : UInt64} {len : UInt32}
    (inside : outside mtd offset len = false) (nonempty : len ≠ 0) :
    ∃ ret, (ret = 0 ∨ ret = -EUCLEAN) ∧ mtdRead mtd flash offset len =
      ⟨ret, len, (List.range' offset.toNat len.toNat).map flash.contents, flash⟩ := by
  rw [mtdRead, inside, if_neg (by decide), if_neg nonempty, ideal.read]
  dsimp only
  rw [if_neg (by decide)]
  split
  · exact ⟨0, .inl rfl, rfl⟩
  · split
    · exact ⟨-EUCLEAN, .inr rfl, rfl⟩
    · exact ⟨0, .inl rfl, rfl⟩

include regular

omit ideal in
theorem writeLoop_behind {fuel : Nat} {offset : UInt64} {left left' : UInt32}
    {buffer : List UInt8} {flash flash' : Flash} (behind : mtd.size.toNat ≤ offset.toNat)
    (more : left ≠ 0) (small : offset.toNat + fuel * mtd.erasesize.toNat < 2 ^ 64 - 2 ^ 31) :
    writeLoop mtd fuel offset left buffer flash ≠ .ok (0, left', flash') := by
  induction fuel generalizing offset with
  | zero =>
    intro wrote
    cases wrote
  | succ fuel induction =>
    have positive := regular.positive
    have later := @lt_blockEnd mtd.erasesize.toNat offset.toNat positive
    have roomLe := regular.room_le offset.toNat
    rw [Nat.succ_mul] at small
    have next := regular.toNat_add_room (by omega : offset.toNat < 2 ^ 64 - 2 ^ 31)
    rw [writeLoop, if_neg more]
    split
    · have piece := toNat_pieceLength regular offset left
      have moreNat : left.toNat ≠ 0 := fun zero => more (UInt32.toNat_inj.mp zero)
      have rejected : outside mtd offset (pieceLength mtd offset left) = true := by
        rw [← Bool.not_eq_false, outside_eq_false_iff regular]
        omega
      dsimp only
      rw [mtdWrite, if_pos rejected]
      intro wrote
      cases wrote
    · exact induction (by omega) (by omega)

theorem writeLoop_walk (inside : offset.toNat ≤ mtd.size.toNat)
    (small : offset.toNat + fuel * mtd.erasesize.toNat < 2 ^ 64 - 2 ^ 31)
    (sized : buffer.length = left.toNat)
    (wrote : writeLoop mtd fuel offset left buffer flash = .ok (0, left', flash')) :
    ∃ pieces stop, BlockWalk mtd.erasesize.toNat (fun block => mtd.Bad (mtd.lowBlock block))
        offset.toNat left.toNat pieces stop ∧ stop ≤ mtd.size.toNat ∧
      flash' = flash.program ((pieceAddresses pieces).zip buffer) := by
  induction fuel generalizing offset left buffer flash with
  | zero => cases wrote
  | succ fuel induction =>
    have positive := regular.positive
    have later := @lt_blockEnd mtd.erasesize.toNat offset.toNat positive
    have roomLe := regular.room_le offset.toNat
    have behind := @writeLoop_behind mtd regular (fuel + 1) offset left left' buffer flash flash'
    rw [Nat.succ_mul] at small behind
    by_cases done : left = 0
    · rw [writeLoop, if_pos done] at wrote
      cases wrote
      rw [done]
      refine ⟨[], offset.toNat, .nil _, inside, ?_⟩
      exact (Flash.program_nil _).symm
    · have leftNat : left.toNat ≠ 0 := fun zero => done (UInt32.toNat_inj.mp zero)
      have before : offset.toNat < mtd.size.toNat := by
        by_contra atEnd
        exact behind (by omega) done (by omega) wrote
      have next := regular.toNat_add_room (by omega : offset.toNat < 2 ^ 64 - 2 ^ 31)
      have asked := regular.isbad_loopBlock inside
      rw [writeLoop, if_neg done] at wrote
      split at wrote
      case isTrue good =>
        rw [asked] at good
        have piece := toNat_pieceLength regular offset left
        have pieceOffset := toNat_add_pieceLength regular left
          (by omega : offset.toNat < 2 ^ 64 - 2 ^ 31)
        have pieceLeft := toNat_sub_pieceLength regular offset left
        have nonempty : pieceLength mtd offset left ≠ 0 := by
          intro zero
          rw [zero] at piece
          change 0 = _ at piece
          omega
        have long : (pieceLength mtd offset left).toNat ≤ buffer.length := by omega
        dsimp only at wrote
        split at wrote
        case isTrue failed =>
          injection wrote with equal
          exact absurd (congrArg Prod.fst equal) failed
        case isFalse written =>
          obtain ⟨accepted, transfer⟩ :=
            mtdWrite_eq_of_success ideal long (not_not.mp written)
          rw [outside_eq_false_iff regular] at accepted
          rw [transfer] at wrote
          obtain ⟨pieces, stop, walk, ends, stored⟩ := induction (by omega) (by omega)
            (by rw [List.length_drop]; omega) wrote
          rw [pieceOffset, pieceLeft] at walk
          have cells : ((List.range' offset.toNat (pieceLength mtd offset left).toNat).zip
                (buffer.take (pieceLength mtd offset left).toNat)) ++
              (pieceAddresses pieces).zip (buffer.drop (pieceLength mtd offset left).toNat) =
              (pieceAddresses ((offset.toNat, (pieceLength mtd offset left).toNat) ::
                pieces)).zip buffer := by
            rw [pieceAddresses_cons, ← List.zip_append, List.take_append_drop]
            rw [List.length_range', List.length_take]
            omega
          rw [Flash.program_append, cells] at stored
          refine ⟨_, stop, ?_, ends, stored⟩
          rw [piece] at walk ⊢
          exact BlockWalk.take_min positive good (by omega) walk
      case isFalse bad =>
        rw [asked, not_not] at bad
        have reach : blockEnd mtd.erasesize.toNat offset.toNat ≤ mtd.size.toNat := by
          by_contra past
          exact writeLoop_behind regular (by omega) done (by omega) wrote
        obtain ⟨pieces, stop, walk, ends, stored⟩ :=
          induction (by omega) (by omega) sized wrote
        rw [next] at walk
        exact ⟨pieces, stop, .skip (by omega) bad walk, ends, stored⟩

end

/-! ## Writing and reading back -/

def flashReads (flash : Flash) : ReadSpec Flash where
  Keeps := (· = flash)
  Delivers offset length data := data = (List.range' offset length).map flash.contents
  MayFail := False

variable {pieces : List (Nat × Nat)}

section

variable {mtd : MtdInfo Flash} (regular : mtd.Regular) (ideal : mtd.Ideal)
  {contents : Nat → UInt8} {offset : UInt64} {length : UInt32} {lim : Int} {buffer : List UInt8}

/-- What a write that returns 0 should have done: it wrote no bad block, it wrote in
the window that it reports, up to its end, and the bytes can be read back. -/
structure WrittenBack (mtd : MtdInfo Flash) (offset : UInt64) (length : UInt32) (lim : Int)
    (buffer : List UInt8) (result : SkipBad Flash) : Prop where
  noBad : ∀ cell ∈ result.chip.programmed, ¬ mtd.Bad (cell.1 / mtd.erasesize.toNat)
  window : ∀ cell ∈ result.chip.programmed,
    offset.toNat ≤ cell.1 ∧ cell.1 < offset.toNat + result.actual.toNat
  limit : (result.actual.toNat : Int) ≤ lim
  reached : result.actual ≠ 0 →
    ∃ cell ∈ result.chip.programmed, cell.1 + 1 = offset.toNat + result.actual.toNat
  readBack : ∃ read, nandReadSkipBad mtd result.chip offset length lim = .ok read ∧
    read.ret = 0 ∧ read.data = buffer

/-- The window of the bytes has less than `2 ^ 32` bytes, and in it there is no bad
block, or every block is as bad as the one with the same lower 32 bits. -/
def FitsWindow (mtd : MtdInfo Flash) (offset : UInt64) (length : UInt32) : Prop :=
  ∃ pieces stop, BlockWalk mtd.erasesize.toNat mtd.Bad offset.toNat length.toNat pieces stop ∧
    stop - offset.toNat < 2 ^ 32 ∧
    ((∀ block, BlockWalk.Meets mtd.erasesize.toNat offset.toNat stop block → ¬ mtd.Bad block) ∨
      ∀ block, BlockWalk.Meets mtd.erasesize.toNat offset.toNat stop block →
        (mtd.Bad block ↔ mtd.Bad (mtd.lowBlock block)))

def Takes (mtd : MtdInfo Flash) (offset : UInt64) (length : UInt32) (needSkip : Int)
    (pieces : List (Nat × Nat)) (stop : Nat) : Prop :=
  needSkip = 0 ∧ pieceAddresses pieces = List.range' offset.toNat length.toNat ∧
      stop = offset.toNat + length.toNat ∨
    needSkip ≠ 0 ∧ BlockWalk mtd.erasesize.toNat (fun block => mtd.Bad (mtd.lowBlock block))
      offset.toNat length.toNat pieces stop

include regular ideal

theorem programmed_of_success (sized : buffer.length = length.toNat)
    (inside : offset.toNat < mtd.size.toNat)
    (wrote : nandWriteSkipBad mtd ⟨contents, []⟩ offset length lim buffer = .ok result)
    (success : result.ret = 0) :
    ∃ needSkip pieces stop, Accepted mtd offset length lim needSkip result.actual ∧
      stop ≤ mtd.size.toNat ∧
      result.chip = Flash.program ⟨contents, []⟩ ((pieceAddresses pieces).zip buffer) ∧
      Takes mtd offset length needSkip pieces stop := by
  obtain ⟨needSkip, accepted, result'⟩ := nandWriteSkipBad_success wrote success
  rcases result' with ⟨noSkip, written, after⟩ | ⟨skip, left, looped⟩
  · obtain ⟨within, transfer⟩ := mtdWrite_eq_of_success ideal sized.ge written
    rw [outside_eq_false_iff regular] at within
    refine ⟨needSkip, [(offset.toNat, length.toNat)], _, accepted, within.2, ?_,
      .inl ⟨noSkip, by simp, rfl⟩⟩
    rw [after, transfer, List.take_of_length_le sized.le]
    simp
  · obtain ⟨pieces, stop, walk, ends, stored⟩ := writeLoop_walk regular ideal inside.le
      (loopFuel_small regular inside.le) sized looped
    exact ⟨needSkip, pieces, stop, accepted, ends, stored, .inr ⟨skip, walk⟩⟩

omit regular in
theorem flashReads_allows (same : (flashReads flash).Keeps chip) (nonempty : len ≠ 0)
    (inside : outside mtd offset len = false) :
    (flashReads flash).Allows offset.toNat len.toNat (mtdRead mtd chip offset len) := by
  cases same
  obtain ⟨ret, accepted, transfer⟩ := mtdRead_eq ideal inside nonempty
  rw [transfer]
  exact .inr ⟨accepted, rfl, rfl, rfl⟩

omit regular ideal in
theorem delivered_eq (delivers : (flashReads flash).DeliversAll pieces data) :
    data = (pieceAddresses pieces).map flash.contents := by
  induction delivers with
  | nil => rfl
  | cons here _ induction =>
    rw [pieceAddresses_cons, List.map_append, here, induction]

theorem nandReadSkipBad_flash
    (accepted : Accepted mtd offset length lim needSkip used) (ends : stop ≤ mtd.size.toNat)
    (inside : offset.toNat < mtd.size.toNat)
    (walk : Takes mtd offset length needSkip pieces stop) :
    ∃ read, nandReadSkipBad mtd flash offset length lim = .ok read ∧ read.ret = 0 ∧
      read.data = (pieceAddresses pieces).map flash.contents := by
  have addressable := regular.addressable
  rw [nandReadSkipBad_eq accepted]
  rcases walk with ⟨noSkip, addresses, rfl⟩ | ⟨skip, walk⟩
  · have within : outside mtd offset length = false := by
      rw [outside_eq_false_iff regular]
      omega
    rw [if_pos noSkip, addresses]
    by_cases empty : length = 0
    · subst empty
      rw [mtdRead, within]
      exact ⟨_, rfl, rfl, rfl⟩
    · obtain ⟨ret, success, transfer⟩ := mtdRead_eq ideal within empty
      rw [transfer]
      rw [if_pos success]
      exact ⟨_, rfl, rfl, rfl⟩
  · obtain ⟨ret, left, data, chip, read, result⟩ := readLoop_of_walk regular
      (fun chip offset len same nonempty inside _ _ =>
        flashReads_allows ideal same nonempty inside) walk ends loopFuel_pos
      (fun _ => loopFuel_enough regular ends) rfl rfl [] (Eq.refl flash)
    rcases result with ⟨never, _⟩ | ⟨zero, _, _, delivers⟩
    · exact never.elim
    · rw [if_neg skip, read]
      exact ⟨_, rfl, zero, delivered_eq delivers⟩

/-- For a write that returns 0: it is as it should be exactly when its window fits. -/
theorem written_back_iff {result : SkipBad Flash} (sized : buffer.length = length.toNat)
    (inside : offset.toNat < mtd.size.toNat)
    (wrote : nandWriteSkipBad mtd ⟨contents, []⟩ offset length lim buffer = .ok result)
    (success : result.ret = 0) :
    WrittenBack mtd offset length lim buffer result ↔ FitsWindow mtd offset length := by
  have positive := regular.positive
  obtain ⟨needSkip, taken, reached, accepted, ends, stored, loop⟩ :=
    programmed_of_success regular ideal sized inside wrote success
  obtain ⟨pieces, stop, walk, used, skips, _⟩ := accepted.walk regular
  have reach := walk.start_le_stop positive
  have takenLength : (pieceAddresses taken).length = buffer.length := by
    rcases loop with ⟨_, addresses, _⟩ | ⟨_, walk'⟩
    · rw [addresses, List.length_range', sized]
    · rw [walk'.length_addresses, sized]
  have programmed : result.chip.programmed = (pieceAddresses taken).zip buffer := by
    rw [stored]
    rfl
  have addresses : result.chip.programmed.map Prod.fst = pieceAddresses taken := by
    rw [programmed, List.map_fst_zip takenLength.le]
  have programmed_iff : ∀ address, address ∈ pieceAddresses taken ↔
      ∃ cell ∈ result.chip.programmed, cell.1 = address := by
    intro address
    rw [← addresses, List.mem_map]
  constructor
  · intro written
    refine ⟨pieces, stop, walk, ?_⟩
    rcases loop with ⟨noSkip, _⟩ | ⟨skip, walk'⟩
    · have kept := skips.mp noSkip
      have ends' := (walk.addresses_of_kept positive kept).2
      have bound := length.toNat_lt
      exact ⟨by omega, .inl kept⟩
    · have more : 0 < length.toNat := by
        rw [← walk.lt_stop_iff positive]
        by_contra empty
        exact skip (skips.mpr fun block meets => absurd meets.1 empty)
      have kept : ∀ address ∈ pieceAddresses taken, ¬ mtd.Bad (address / mtd.erasesize.toNat) := by
        intro address member
        obtain ⟨cell, programmedCell, rfl⟩ := (programmed_iff address).mp member
        exact written.noBad cell programmedCell
      obtain ⟨last, member, at_end⟩ := (programmed_iff _).mp (walk'.last_mem_addresses more)
      have inWindow := (written.window last member).2
      obtain ⟨_, rfl, agree⟩ := walk.eq_of_stop_le positive walk' kept (by omega)
      exact ⟨by omega, .inr agree⟩
  · rintro ⟨pieces', stop', walk', fits, agrees⟩
    obtain ⟨rfl, rfl⟩ := walk.unique positive walk'
    have same : pieceAddresses taken = pieceAddresses pieces' := by
      rcases loop with ⟨noSkip, taken', _⟩ | ⟨skip, taken'⟩
      · rw [taken', (walk.addresses_of_kept positive (skips.mp noSkip)).1]
      · have agree := agrees.resolve_left fun kept => skip (skips.mpr kept)
        rw [((walk.congr positive agree).unique positive taken').1]
    refine ⟨?_, ?_, accepted.limit, ?_, ?_⟩
    · intro cell member
      exact (walk.mem_addresses positive
        (same ▸ (programmed_iff cell.1).mpr ⟨cell, member, rfl⟩)).2.2
    · intro cell member
      have bounds := walk.mem_addresses positive
        (same ▸ (programmed_iff cell.1).mpr ⟨cell, member, rfl⟩)
      exact ⟨bounds.1, by omega⟩
    · intro nonzero
      have more : 0 < length.toNat := by
        rw [← walk.lt_stop_iff positive]
        by_contra empty
        rw [Nat.sub_eq_zero_of_le (Nat.not_lt.mp empty)] at used
        exact nonzero (UInt32.toNat_inj.mp used)
      have last := walk.last_mem_addresses more
      rw [← same] at last
      obtain ⟨cell, member, at_end⟩ := (programmed_iff _).mp last
      exact ⟨cell, member, by omega⟩
    · obtain ⟨read, returned, zero, data⟩ := nandReadSkipBad_flash regular ideal accepted ends
        inside loop
      refine ⟨read, returned, zero, ?_⟩
      have nodup : (result.chip.programmed.map Prod.fst).Nodup := by
        rw [addresses, same]
        exact walk.nodup_addresses positive
      have contents' : result.chip.contents = storeCells contents result.chip.programmed := by
        rw [stored]
        rfl
      rw [data, contents', ← addresses, map_storeCells nodup, programmed,
        List.map_snd_zip takenLength.ge]

end

def largePageFlash (size : UInt64) (bad : Nat → Bool) : MtdInfo Flash where
  size := size
  erasesize := 0x20000
  writesize := 0x800
  writeable := true
  eccStrength := 1
  bitflipThreshold := 1
  blockIsbad offset := bif bad (offset.toNat / 0x20000) then 1 else 0
  read flash offset len :=
    ⟨0, len, (List.range' offset.toNat len.toNat).map flash.contents, flash⟩
  write flash offset data :=
    ⟨0, UInt32.ofNat data.length, [],
      flash.program ((List.range' offset.toNat data.length).zip data)⟩

theorem largePageFlash_ideal : (largePageFlash size bad).Ideal :=
  ⟨fun _ _ _ => rfl, fun _ _ _ => rfl⟩

theorem largePageFlash_regular (addressable : size.toNat ≤ 2 ^ 63) :
    (largePageFlash size bad).Regular :=
  ⟨⟨17, rfl⟩, addressable⟩

/-- A write of three bytes that skips the first block. -/
theorem written_back_iff_first_bad :
    let mtd := largePageFlash 0x100000 (· = 0)
    ∃ result, nandWriteSkipBad mtd ⟨fun _ => 0xff, []⟩ 0 3 0x100000 [1, 2, 3] = .ok result ∧
      result.ret = 0 ∧
      (WrittenBack mtd 0 3 0x100000 [1, 2, 3] result ↔ FitsWindow mtd 0 3) := by
  intro mtd
  obtain ⟨result, wrote, success⟩ : ∃ result, nandWriteSkipBad mtd ⟨fun _ => 0xff, []⟩ 0 3
      0x100000 [1, 2, 3] = .ok result ∧ result.ret = 0 := Exec.Returns.exists (by decide +kernel)
  exact ⟨result, wrote, success, written_back_iff (largePageFlash_regular (by decide))
    largePageFlash_ideal rfl (by decide) wrote success⟩

/-- A write at 4 GiB into a block that is bad: the loop asks about block 0. -/
theorem bad_block_written :
    let mtd := largePageFlash 0x200000000 (· = 0x8000)
    ∃ result, nandWriteSkipBad mtd ⟨fun _ => 0xff, []⟩ 0x100000000 1 0x100000000 [1] = .ok result ∧
      result.ret = 0 ∧
      ∃ cell ∈ result.chip.programmed, mtd.Bad (cell.1 / mtd.erasesize.toNat) := by
  intro mtd
  exact Exec.Returns.exists (by decide +kernel)

end UBootV210.Nand
