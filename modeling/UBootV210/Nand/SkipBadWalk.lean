import UBootV210.Foundation.BitMask
import UBootV210.Foundation.BlockWalk
import UBootV210.Nand.SkipBad

/-! # The walks of the skip-bad functions

`check_skip_len` and the two loops walk through the blocks from an offset on.
The first one asks about the block of the offset, the loops about the block of
its lower 32 bits. -/

namespace UBootV210.Nand

open BitMask

variable {Chip : Type} {mtd : MtdInfo Chip}

/-- The erase size is a power of two, and every offset in the device is one. -/
structure MtdInfo.Regular (mtd : MtdInfo Chip) : Prop where
  erasesize : ∃ width, mtd.erasesize.toNat = 2 ^ width
  addressable : mtd.size.toNat ≤ 2 ^ 63

def MtdInfo.Bad (mtd : MtdInfo Chip) (block : Nat) : Prop :=
  mtd.blockIsbad (UInt64.ofNat (block * mtd.erasesize.toNat)) ≠ 0

instance (mtd : MtdInfo Chip) : DecidablePred mtd.Bad :=
  fun _ => inferInstanceAs (Decidable (_ ≠ _))

def MtdInfo.lowBlock (mtd : MtdInfo Chip) (block : Nat) : Nat :=
  block % (2 ^ 32 / mtd.erasesize.toNat)

variable {offset : UInt64} {stop : Nat}

namespace MtdInfo.Regular

variable (regular : mtd.Regular)
include regular

theorem positive : 0 < mtd.erasesize.toNat := by
  obtain ⟨width, power⟩ := regular.erasesize
  rw [power]
  exact Nat.two_pow_pos width

theorem erasesize_le : mtd.erasesize.toNat ≤ 2 ^ 31 := by
  obtain ⟨width, power⟩ := regular.erasesize
  rw [power]
  exact Nat.pow_le_pow_right (by decide) (Nat.lt_succ_iff.mp (width_lt power))

theorem erasesize_dvd : mtd.erasesize.toNat ∣ 2 ^ 32 := by
  obtain ⟨width, power⟩ := regular.erasesize
  rw [power]
  exact Nat.pow_dvd_pow 2 (width_lt power).le

theorem le_lastBlock (bound : value < 2 ^ 32) :
    value ≤ 2 ^ 32 - mtd.erasesize.toNat + value % mtd.erasesize.toNat := by
  obtain ⟨count, total⟩ := regular.erasesize_dvd
  have split := Nat.div_add_mod value mtd.erasesize.toNat
  rw [total] at bound ⊢
  have product := Nat.mul_le_mul_left mtd.erasesize.toNat (Nat.div_lt_of_lt_mul bound)
  rw [Nat.mul_succ] at product
  omega

theorem lastBlock_le (late : 2 ^ 32 ≤ value + mtd.erasesize.toNat) :
    2 ^ 32 - mtd.erasesize.toNat + value % mtd.erasesize.toNat ≤ value := by
  obtain ⟨count, total⟩ := regular.erasesize_dvd
  have split := Nat.div_add_mod value mtd.erasesize.toNat
  have quotient := Nat.div_le_div_right (c := mtd.erasesize.toNat) late
  rw [total, Nat.mul_div_cancel_left _ regular.positive, Nat.add_div_right _ regular.positive]
    at quotient
  have product := Nat.mul_le_mul_left mtd.erasesize.toNat quotient
  rw [Nat.mul_succ] at product
  omega

theorem toNat_blockOffset :
    (blockOffset mtd offset).toNat = offset.toNat % mtd.erasesize.toNat := by
  obtain ⟨width, power⟩ := regular.erasesize
  have bound := Nat.mod_lt offset.toNat regular.positive
  have small := mtd.erasesize.toNat_lt
  rw [blockOffset, UInt64.toNat_toUInt32, toNat_and_low power, Nat.mod_eq_of_lt (by omega)]

theorem blockEnd_eq (offset : Nat) : blockEnd mtd.erasesize.toNat offset =
    offset + (mtd.erasesize.toNat - offset % mtd.erasesize.toNat) := by
  have split := Nat.div_add_mod offset mtd.erasesize.toNat
  have bound := Nat.mod_lt offset regular.positive
  rw [blockEnd, Nat.add_mul, Nat.mul_comm]
  omega

theorem toNat_room (offset : UInt64) : (mtd.erasesize - blockOffset mtd offset).toNat =
    blockEnd mtd.erasesize.toNat offset.toNat - offset.toNat := by
  have bound := Nat.mod_lt offset.toNat regular.positive
  rw [UInt32.toNat_sub_of_le, regular.toNat_blockOffset, regular.blockEnd_eq]
  · omega
  · rw [UInt32.le_iff_toNat_le, regular.toNat_blockOffset]
    exact bound.le

theorem room_add_window (reach : blockEnd mtd.erasesize.toNat offset.toNat ≤ stop) :
    mtd.erasesize - blockOffset mtd offset +
        UInt32.ofNat (stop - blockEnd mtd.erasesize.toNat offset.toNat) =
      UInt32.ofNat (stop - offset.toNat) := by
  have later := @lt_blockEnd mtd.erasesize.toNat offset.toNat regular.positive
  rw [← UInt32.ofNat_toNat (x := mtd.erasesize - _), regular.toNat_room, ← UInt32.ofNat_add]
  congr 1
  omega

theorem room_le (offset : Nat) :
    blockEnd mtd.erasesize.toNat offset - offset ≤ mtd.erasesize.toNat := by
  rw [regular.blockEnd_eq]
  omega

theorem toNat_add_room (inside : offset.toNat < 2 ^ 64 - 2 ^ 31) :
    (offset + (mtd.erasesize - blockOffset mtd offset).toUInt64).toNat =
      blockEnd mtd.erasesize.toNat offset.toNat := by
  have later := @lt_blockEnd mtd.erasesize.toNat offset.toNat regular.positive
  have room := regular.room_le offset.toNat
  have small := regular.erasesize_le
  rw [UInt64.toNat_add, UInt32.toNat_toUInt64, regular.toNat_room]
  rw [Nat.mod_eq_of_lt] <;> omega

omit regular in
theorem isbad_of_toNat_eq
    (equal : start.toNat = block * mtd.erasesize.toNat) (inside : start.toNat ≤ mtd.size.toNat)
    (nonnegative : start.toNat < 2 ^ 63) : mtdBlockIsbad mtd start = 0 ↔ ¬ mtd.Bad block := by
  have accepted : (isNegative start || mtd.size < start) = false := by
    simp only [isNegative, Bool.or_eq_false_iff, decide_eq_false_iff_not, UInt64.le_iff_toNat_le,
      UInt64.lt_iff_toNat_lt, UInt64.reduceToNat]
    omega
  rw [mtdBlockIsbad, accepted, if_neg (by decide), MtdInfo.Bad, ← equal, UInt64.ofNat_toNat,
    not_not]

theorem isbad_block (inside : offset.toNat ≤ mtd.size.toNat) (nonnegative : offset.toNat < 2 ^ 63) :
    mtdBlockIsbad mtd (offset &&& ~~~(mtd.erasesize - 1).toUInt64) = 0 ↔
      ¬ mtd.Bad (offset.toNat / mtd.erasesize.toNat) := by
  obtain ⟨width, power⟩ := regular.erasesize
  have start := toNat_and_high power offset
  have below := Nat.div_mul_le_self offset.toNat mtd.erasesize.toNat
  exact isbad_of_toNat_eq start (by omega) (by omega)

theorem isbad_loopBlock (inside : offset.toNat ≤ mtd.size.toNat) :
    mtdBlockIsbad mtd (loopBlock mtd offset) = 0 ↔
      ¬ mtd.Bad (mtd.lowBlock (offset.toNat / mtd.erasesize.toNat)) := by
  obtain ⟨width, power⟩ := regular.erasesize
  have start := toNat_and_high32 power offset
  have below := Nat.div_mul_le_self (offset.toNat % 2 ^ 32) mtd.erasesize.toNat
  have low := Nat.mod_le offset.toNat (2 ^ 32)
  have split : mtd.erasesize.toNat * (2 ^ 32 / mtd.erasesize.toNat) = 2 ^ 32 :=
    Nat.mul_div_cancel' regular.erasesize_dvd
  have block : offset.toNat % 2 ^ 32 / mtd.erasesize.toNat =
      mtd.lowBlock (offset.toNat / mtd.erasesize.toNat) := by
    have divided := Nat.mod_mul_right_div_self offset.toNat mtd.erasesize.toNat
      (2 ^ 32 / mtd.erasesize.toNat)
    rwa [split] at divided
  rw [← block]
  exact isbad_of_toNat_eq start (by rw [loopBlock]; omega) (by rw [loopBlock]; omega)

end MtdInfo.Regular

/-! ## `check_skip_len` -/

variable {fuel : Nat} {lenExclBad used used' : UInt32} {ret ret' : Int}

section

variable {length : UInt32}

/-- Once the counter has passed `2 ^ 32` it never reaches the length, and the walk
runs over the end of the device. -/
theorem checkSkipLen_stuck (regular : mtd.Regular)
    (aligned : offset.toNat % mtd.erasesize.toNat = 0)
    (stuck : 2 ^ 32 - mtd.erasesize.toNat + lenExclBad.toNat % mtd.erasesize.toNat < length.toNat)
    (checked : checkSkipLen mtd length fuel offset lenExclBad used ret = .ok (ret', used')) :
    ret' < 0 := by
  induction fuel generalizing offset lenExclBad used ret with
  | zero => cases checked
  | succ fuel induction =>
    have positive := regular.positive
    have addressable := regular.addressable
    have less : lenExclBad < length :=
      UInt32.lt_iff_toNat_lt.mpr ((regular.le_lastBlock lenExclBad.toNat_lt).trans_lt stuck)
    rw [checkSkipLen, if_pos less] at checked
    split at checked
    · cases checked
      decide
    case isFalse inside =>
      rw [UInt64.le_iff_toNat_le] at inside
      have next := regular.toNat_add_room (by omega : offset.toNat < 2 ^ 64 - 2 ^ 31)
      have nextAligned := blockEnd_mod mtd.erasesize.toNat offset.toNat
      rw [← next] at nextAligned
      dsimp only at checked
      split at checked
      · refine induction nextAligned ?_ checked
        rw [UInt32.toNat_add, regular.toNat_room, regular.blockEnd_eq, aligned, Nat.sub_zero,
          Nat.add_sub_cancel_left, Nat.mod_mod_of_dvd _ regular.erasesize_dvd, Nat.add_mod_right]
        exact stuck
      · exact induction nextAligned stuck checked

theorem checkSkipLen_done (enough : length.toNat ≤ lenExclBad.toNat)
    (checked : checkSkipLen mtd length fuel offset lenExclBad used ret = .ok (ret', used')) :
    ret' = ret ∧ used' = used - (lenExclBad - length) := by
  cases fuel with
  | zero => cases checked
  | succ fuel =>
    rw [checkSkipLen, if_neg (by rw [UInt32.lt_iff_toNat_lt]; omega)] at checked
    split at checked
    · cases checked
      exact ⟨rfl, rfl⟩
    case isFalse notMore =>
      rw [UInt32.lt_iff_toNat_lt] at notMore
      have equal : lenExclBad = length := UInt32.toNat_inj.mp (by omega)
      cases checked
      rw [equal, UInt32.sub_self, UInt32.sub_zero]
      exact ⟨rfl, rfl⟩

/-- A check that does not fail has walked through the blocks, and has counted its
window modulo `2 ^ 32`. -/
theorem checkSkipLen_walk (regular : mtd.Regular) (nonnegative : 0 ≤ ret') (from0 : 0 ≤ ret)
    (counted : lenExclBad.toNat ≤ length.toNat)
    (aligned : offset.toNat % mtd.erasesize.toNat = 0 ∨ lenExclBad = 0)
    (checked : checkSkipLen mtd length fuel offset lenExclBad used ret = .ok (ret', used')) :
    ∃ pieces stop, BlockWalk mtd.erasesize.toNat mtd.Bad offset.toNat
        (length.toNat - lenExclBad.toNat) pieces stop ∧
      used' = used + UInt32.ofNat (stop - offset.toNat) ∧
      (ret' = 0 ↔ ret = 0 ∧ ∀ block,
        BlockWalk.Meets mtd.erasesize.toNat offset.toNat stop block → ¬ mtd.Bad block) ∧
      (offset.toNat < stop →
        (stop - 1) / mtd.erasesize.toNat * mtd.erasesize.toNat < mtd.size.toNat) := by
  induction fuel generalizing offset lenExclBad used ret with
  | zero => cases checked
  | succ fuel induction =>
    have positive := regular.positive
    have addressable := regular.addressable
    by_cases more : lenExclBad < length
    · rw [checkSkipLen, if_pos more] at checked
      rw [UInt32.lt_iff_toNat_lt] at more
      split at checked
      · cases checked
        exact absurd nonnegative (by decide)
      case isFalse inside =>
        rw [UInt64.le_iff_toNat_le, Nat.not_le] at inside
        have later := @lt_blockEnd mtd.erasesize.toNat offset.toNat positive
        have small := regular.erasesize_le
        have roomLe := regular.room_le offset.toNat
        have room := regular.toNat_room offset
        have next := regular.toNat_add_room (by omega : offset.toNat < 2 ^ 64 - 2 ^ 31)
        have nextAligned := blockEnd_mod mtd.erasesize.toNat offset.toNat
        rw [← next] at nextAligned
        have asked := regular.isbad_block inside.le (by omega)
        dsimp only at checked
        split at checked
        case isTrue good =>
          rw [asked] at good
          have total : lenExclBad.toNat + (mtd.erasesize - blockOffset mtd offset).toNat < 2 ^ 32 ∨
              2 ^ 32 ≤ lenExclBad.toNat + (mtd.erasesize - blockOffset mtd offset).toNat :=
            Nat.lt_or_ge _ _
          rcases total with fits | wraps
          · have sum : (lenExclBad + (mtd.erasesize - blockOffset mtd offset)).toNat =
                lenExclBad.toNat + (mtd.erasesize - blockOffset mtd offset).toNat := by
              rw [UInt32.toNat_add, Nat.mod_eq_of_lt fits]
            rw [room] at sum
            by_cases enough : length.toNat - lenExclBad.toNat ≤
                blockEnd mtd.erasesize.toNat offset.toNat - offset.toNat
            · -- The block has all that is left; the next turn only corrects the window.
              obtain ⟨rfl, spans⟩ := checkSkipLen_done (by omega) checked
              have rest : UInt32.ofNat (length.toNat - lenExclBad.toNat) = length - lenExclBad := by
                rw [← UInt32.toNat_sub_of_le _ _ (UInt32.le_iff_toNat_le.mpr counted),
                  UInt32.ofNat_toNat]
              refine ⟨_, _, .last (by omega) good enough, ?_, ?_, ?_⟩
              · rw [spans, Nat.add_sub_cancel_left, rest]
                grind
              · rw [BlockWalk.forall_meets_last_iff positive (by omega) enough]
                exact (and_iff_left good).symm
              · intro _
                have start := Nat.div_mul_le_self offset.toNat mtd.erasesize.toNat
                rw [div_eq_of_lt_blockEnd positive (by omega : offset.toNat ≤ _) (by omega)]
                omega
            · obtain ⟨pieces, stop, walk, spans, skips, inDevice⟩ :=
                induction from0 (by omega) (.inl nextAligned) checked
              rw [next] at walk spans skips inDevice
              rw [sum, show length.toNat - (lenExclBad.toNat +
                  (blockEnd mtd.erasesize.toNat offset.toNat - offset.toNat)) =
                length.toNat - lenExclBad.toNat -
                  (blockEnd mtd.erasesize.toNat offset.toNat - offset.toNat) by omega] at walk
              have reach := walk.start_le_stop positive
              refine ⟨_, stop, .take good (by omega) walk, ?_, ?_, fun _ => inDevice (by omega)⟩
              · rw [spans, UInt32.add_assoc, regular.room_add_window (by omega)]
              · rw [BlockWalk.forall_meets_iff positive (by omega), and_iff_right good]
                exact skips
          · have counting : lenExclBad ≠ 0 := by
              rintro rfl
              rw [room] at wraps
              change _ ≤ 0 + _ at wraps
              omega
            have atStart := aligned.resolve_right counting
            rw [room] at wraps
            have full := regular.blockEnd_eq offset.toNat
            rw [atStart] at full
            refine absurd (checkSkipLen_stuck regular nextAligned ?_ checked) (by omega)
            rw [UInt32.toNat_add, room, Nat.mod_mod_of_dvd _ regular.erasesize_dvd, full,
              Nat.sub_zero, Nat.add_sub_cancel_left, Nat.add_mod_right]
            exact (regular.lastBlock_le (by omega)).trans_lt more
        case isFalse bad =>
          rw [asked, not_not] at bad
          obtain ⟨pieces, stop, walk, spans, skips, inDevice⟩ :=
            induction (by decide) counted (.inl nextAligned) checked
          rw [next] at walk spans skips inDevice
          have reach := walk.start_le_stop positive
          refine ⟨pieces, stop, .skip (by omega) bad walk, ?_, ?_, fun _ => inDevice (by omega)⟩
          · rw [spans, UInt32.add_assoc, regular.room_add_window (by omega)]
          · rw [BlockWalk.forall_meets_iff positive (by omega)]
            simp [skips, bad]
    · rw [checkSkipLen, if_neg more] at checked
      rw [UInt32.lt_iff_toNat_lt] at more
      have equal : lenExclBad.toNat = length.toNat := by omega
      rw [if_neg (by rw [UInt32.lt_iff_toNat_lt]; omega)] at checked
      cases checked
      rw [equal, Nat.sub_self]
      refine ⟨[], offset.toNat, .nil _, by simp, ?_, fun later => absurd later (Nat.lt_irrefl _)⟩
      simp [BlockWalk.Meets]

end

section

variable (regular : mtd.Regular)
include regular

theorem toNat_pieceLength (offset : UInt64) (left : UInt32) : (pieceLength mtd offset left).toNat =
      min left.toNat (blockEnd mtd.erasesize.toNat offset.toNat - offset.toNat) := by
  have room := regular.toNat_room offset
  rw [pieceLength]
  split
  case isTrue less =>
    rw [UInt32.lt_iff_toNat_lt, room] at less
    omega
  case isFalse notLess =>
    rw [UInt32.lt_iff_toNat_lt, room] at notLess
    omega

theorem toNat_add_pieceLength (left : UInt32) (inside : offset.toNat < 2 ^ 64 - 2 ^ 31) :
    (offset + (pieceLength mtd offset left).toUInt64).toNat =
      offset.toNat + (pieceLength mtd offset left).toNat := by
  have piece := toNat_pieceLength regular offset left
  have room := regular.room_le offset.toNat
  have small := regular.erasesize_le
  rw [UInt64.toNat_add, UInt32.toNat_toUInt64, Nat.mod_eq_of_lt (by omega)]

theorem toNat_sub_pieceLength (offset : UInt64) (left : UInt32) :
    (left - pieceLength mtd offset left).toNat =
      left.toNat - (pieceLength mtd offset left).toNat := by
  have piece := toNat_pieceLength regular offset left
  rw [UInt32.toNat_sub_of_le]
  rw [UInt32.le_iff_toNat_le]
  omega

end

theorem outside_eq_false_iff (regular : mtd.Regular) : outside mtd offset len = false ↔
      offset.toNat < 2 ^ 63 ∧ offset.toNat + len.toNat ≤ mtd.size.toNat := by
  have addressable := regular.addressable
  have lenBound := len.toNat_lt
  rw [outside]
  by_cases within : mtd.size < offset
  · rw [decide_eq_true within, Bool.or_true, Bool.true_or]
    rw [UInt64.lt_iff_toNat_lt] at within
    refine iff_of_false (by decide) ?_
    omega
  · rw [UInt64.lt_iff_toNat_lt] at within
    have rest : (mtd.size - offset).toNat = mtd.size.toNat - offset.toNat :=
      UInt64.toNat_sub_of_le _ _ (UInt64.le_iff_toNat_le.mpr (by omega))
    simp only [isNegative, Bool.or_eq_false_iff, decide_eq_false_iff_not, UInt64.le_iff_toNat_le,
      UInt64.lt_iff_toNat_lt, UInt64.reduceToNat, rest, UInt32.toNat_toUInt64]
    omega

/-! ## What the read loop reads -/

/-- What is known of the reads of a driver: the states of the chip that it keeps,
what a successful read delivers, and when a read may fail. -/
structure ReadSpec (Chip : Type) where
  Keeps : Chip → Prop
  Delivers : Nat → Nat → List UInt8 → Prop
  MayFail : Prop

def ReadSpec.Allows (spec : ReadSpec Chip) (offset length : Nat) (done : Transfer Chip) : Prop :=
  spec.MayFail ∧ done.ret ≠ 0 ∧ done.ret ≠ -EUCLEAN ∨
    (done.ret = 0 ∨ done.ret = -EUCLEAN) ∧ done.retlen.toNat = length ∧ spec.Keeps done.chip ∧
      spec.Delivers offset length done.data

inductive ReadSpec.DeliversAll (spec : ReadSpec Chip) : List (Nat × Nat) → List UInt8 → Prop
  | nil : spec.DeliversAll [] []
  | cons {offset length : Nat} {pieces : List (Nat × Nat)} {data rest : List UInt8} :
      spec.Delivers offset length data → spec.DeliversAll pieces rest →
      spec.DeliversAll ((offset, length) :: pieces) (data ++ rest)

section

variable {spec : ReadSpec Chip} (regular : mtd.Regular)
  (reads : ∀ chip (offset : UInt64) (len : UInt32), spec.Keeps chip → len ≠ 0 →
    outside mtd offset len = false →
    ¬ mtd.Bad (mtd.lowBlock (offset.toNat / mtd.erasesize.toNat)) →
    offset.toNat + len.toNat ≤ blockEnd mtd.erasesize.toNat offset.toNat →
    spec.Allows offset.toNat len.toNat (mtdRead mtd chip offset len))
include regular reads

/-- The loop reads the pieces of its walk, unless a read fails. -/
theorem readLoop_of_walk
    (walk : BlockWalk mtd.erasesize.toNat (fun block => mtd.Bad (mtd.lowBlock block)) start left
      pieces stop) (ends : stop ≤ mtd.size.toNat) (turns : 0 < fuel)
    (enough : 0 < left → (stop - 1) / mtd.erasesize.toNat + 2 ≤ fuel + start / mtd.erasesize.toNat)
    (atStart : offset.toNat = start) (toRead : leftToRead.toNat = left)
    (data : List UInt8) (keeps : spec.Keeps chip) :
    ∃ ret left' data' chip', readLoop mtd fuel offset leftToRead data chip =
        .ok (ret, left', data ++ data', chip') ∧
      (spec.MayFail ∧ ret ≠ 0 ∨
        ret = 0 ∧ left' = 0 ∧ spec.Keeps chip' ∧ spec.DeliversAll pieces data') := by
  have positive := regular.positive
  have addressable := regular.addressable
  induction fuel generalizing start left pieces offset leftToRead data chip with
  | zero => exact absurd turns (Nat.lt_irrefl 0)
  | succ fuel induction =>
    have later := @lt_blockEnd mtd.erasesize.toNat start positive
    have reach := walk.start_le_stop positive
    by_cases finished : leftToRead = 0
    · subst finished
      rw [← toRead] at walk
      obtain ⟨rfl, rfl⟩ := walk.eq_nil_of_zero
      refine ⟨0, 0, [], chip, ?_, .inr ⟨rfl, rfl, keeps, .nil⟩⟩
      rw [readLoop, if_pos rfl, List.append_nil]
    · have more : 0 < left := by
        rw [← toRead, Nat.pos_iff_ne_zero]
        exact fun zero => finished (UInt32.toNat_inj.mp zero)
      have within : start / mtd.erasesize.toNat ≤ (stop - 1) / mtd.erasesize.toNat :=
        Nat.div_le_div_right (by omega)
      have asked := regular.isbad_loopBlock (by omega : offset.toNat ≤ mtd.size.toNat)
      rw [atStart] at asked
      rcases walk.cases_min positive more with ⟨skips, rest⟩ | ⟨kept, rest, rfl, tailWalk⟩
      · have next := regular.toNat_add_room (by omega : offset.toNat < 2 ^ 64 - 2 ^ 31)
        rw [atStart] at next
        rw [readLoop, if_neg finished, if_neg (by rw [asked, not_not]; exact skips)]
        refine induction rest (by omega) ?_ next toRead data keeps
        rw [blockEnd_div positive]
        omega
      · have piece := toNat_pieceLength regular offset leftToRead
        rw [atStart, toRead] at piece
        have nonempty : pieceLength mtd offset leftToRead ≠ 0 := by
          intro zero
          rw [zero] at piece
          change 0 = _ at piece
          omega
        have inside : outside mtd offset (pieceLength mtd offset leftToRead) = false := by
          rw [outside_eq_false_iff regular]
          omega
        have allowed := reads chip offset _ keeps nonempty inside (by rw [atStart]; exact kept)
          (by rw [atStart, piece]; omega)
        rw [atStart, piece] at allowed
        rw [readLoop, if_neg finished, if_pos (asked.mpr kept)]
        generalize mtdRead mtd chip offset (pieceLength mtd offset leftToRead) = done at allowed
        rcases allowed with ⟨mayFail, failed⟩ | ⟨succeeded, retlen, keeps', delivers⟩
        · rw [if_pos failed]
          exact ⟨done.ret, leftToRead, done.data, done.chip, rfl, .inl ⟨mayFail, failed.1⟩⟩
        · have nextOffset : (offset + done.retlen.toUInt64).toNat =
              start + min left (blockEnd mtd.erasesize.toNat start - start) := by
            rw [UInt64.toNat_add, UInt32.toNat_toUInt64, retlen, atStart]
            omega
          have nextLeft : (leftToRead - done.retlen).toNat =
              left - min left (blockEnd mtd.erasesize.toNat start - start) := by
            rw [UInt32.toNat_sub_of_le, retlen, toRead]
            rw [UInt32.le_iff_toNat_le, toRead]
            omega
          rw [if_neg (by tauto)]
          obtain ⟨ret, left', data', chip', read, result⟩ := induction tailWalk (by omega) (by
            intro stillMore
            rw [Nat.min_eq_right (by omega), Nat.add_sub_cancel' later.le, blockEnd_div positive]
            omega) nextOffset nextLeft (data ++ done.data) keeps'
          refine ⟨ret, left', done.data ++ data', chip', ?_, ?_⟩
          · rw [read, List.append_assoc]
          · rcases result with failed | ⟨zero, left0, keeps'', all⟩
            · exact .inl failed
            · exact .inr ⟨zero, left0, keeps'', .cons delivers all⟩

end

section

variable (regular : mtd.Regular) {offset : UInt64}
include regular

omit regular in
theorem loopFuel_pos : 0 < loopFuel mtd offset := Nat.succ_pos _

theorem loopFuel_small (inside : offset.toNat ≤ mtd.size.toNat) :
    offset.toNat + loopFuel mtd offset * mtd.erasesize.toNat < 2 ^ 64 - 2 ^ 31 := by
  have addressable := regular.addressable
  have small := regular.erasesize_le
  have rest := Nat.div_mul_le_self (mtd.size.toNat - offset.toNat) mtd.erasesize.toNat
  have cycle := Nat.div_mul_le_self (2 ^ 32) mtd.erasesize.toNat
  rw [loopFuel, Nat.add_mul, Nat.add_mul]
  omega

theorem loopFuel_enough (ends : stop ≤ mtd.size.toNat) : (stop - 1) / mtd.erasesize.toNat + 2 ≤
      loopFuel mtd offset + offset.toNat / mtd.erasesize.toNat := by
  have positive := regular.positive
  have total : (stop - 1) / mtd.erasesize.toNat ≤
      (mtd.size.toNat - offset.toNat + offset.toNat) / mtd.erasesize.toNat :=
    Nat.div_le_div_right (by omega)
  rw [Nat.add_div positive] at total
  rw [loopFuel]
  generalize 2 ^ 32 / mtd.erasesize.toNat = cycle
  split at total <;> omega

end

/-! ## What the two functions do -/

section

variable {Chip : Type} {mtd : MtdInfo Chip} {chip : Chip} {offset : UInt64} {length : UInt32}
  {lim : Int}

structure Accepted (mtd : MtdInfo Chip) (offset : UInt64) (length : UInt32) (lim : Int)
    (needSkip : Int) (used : UInt32) : Prop where
  aligned : offset &&& (mtd.writesize - 1).toUInt64 = 0
  checked : checkSkipLen mtd length (mtd.size.toNat + 1) offset 0 0 0 = .ok (needSkip, used)
  nonnegative : 0 ≤ needSkip
  limit : (used.toNat : Int) ≤ lim

theorem nandWriteSkipBad_success
    (wrote : nandWriteSkipBad mtd chip offset length lim buffer = .ok result)
    (success : result.ret = 0) :
    ∃ needSkip, Accepted mtd offset length lim needSkip result.actual ∧
      (needSkip = 0 ∧ (mtdWrite mtd chip offset length buffer).ret = 0 ∧
          result.chip = (mtdWrite mtd chip offset length buffer).chip ∨
        needSkip ≠ 0 ∧ ∃ left, writeLoop mtd (loopFuel mtd offset) offset length buffer chip =
            .ok (0, left, result.chip)) := by
  rw [nandWriteSkipBad] at wrote
  split at wrote
  · cases wrote
    cases success
  case isFalse aligned =>
    obtain ⟨⟨needSkip, used⟩, checked, wrote⟩ := Exec.bind_eq_ok_iff.mp wrote
    dsimp only at wrote
    split at wrote
    · cases wrote
      cases success
    case isFalse nonnegative =>
      split at wrote
      · cases wrote
        cases success
      case isFalse limit =>
        have accepted : Accepted mtd offset length lim needSkip used :=
          ⟨not_not.mp aligned, checked, by omega, by omega⟩
        split at wrote
        case isTrue noSkip =>
          cases wrote
          exact ⟨needSkip, accepted, .inl ⟨noSkip, success, rfl⟩⟩
        case isFalse skip =>
          obtain ⟨⟨ret, left, after⟩, looped, returned⟩ := Exec.bind_eq_ok_iff.mp wrote
          cases returned
          cases success
          exact ⟨needSkip, accepted, .inr ⟨skip, left, looped⟩⟩

theorem nandReadSkipBad_eq (accepted : Accepted mtd offset length lim needSkip used) :
    nandReadSkipBad mtd chip offset length lim =
      if needSkip = 0 then
        let done := mtdRead mtd chip offset length
        if done.ret = 0 ∨ done.ret = -EUCLEAN then
          .ok ⟨0, done.retlen, used, done.data, done.chip⟩
        else
          .ok ⟨done.ret, 0, used, done.data, done.chip⟩
      else
        (readLoop mtd (loopFuel mtd offset) offset length [] chip).map
          fun (ret, left, data, chip) => ⟨ret, length - left, used, data, chip⟩ := by
  have nonnegative := accepted.nonnegative
  have limit := accepted.limit
  rw [nandReadSkipBad, if_neg (not_not.mpr accepted.aligned), accepted.checked]
  simp only [bind, Except.bind, pure, Except.pure]
  rw [if_neg (by omega), if_neg (by omega)]
  split
  · rfl
  · cases readLoop mtd (loopFuel mtd offset) offset length [] chip <;> rfl

theorem Accepted.walk (regular : mtd.Regular)
    (accepted : Accepted mtd offset length lim needSkip used) :
    ∃ pieces stop, BlockWalk mtd.erasesize.toNat mtd.Bad offset.toNat length.toNat pieces stop ∧
      used.toNat = (stop - offset.toNat) % 2 ^ 32 ∧
      (needSkip = 0 ↔ ∀ block,
        BlockWalk.Meets mtd.erasesize.toNat offset.toNat stop block → ¬ mtd.Bad block) ∧
      (offset.toNat < stop →
        (stop - 1) / mtd.erasesize.toNat * mtd.erasesize.toNat < mtd.size.toNat) := by
  obtain ⟨pieces, stop, walk, spans, skips, inDevice⟩ := checkSkipLen_walk regular
    accepted.nonnegative (Int.le_refl 0) (Nat.zero_le _) (.inr rfl) accepted.checked
  refine ⟨pieces, stop, walk, ?_, by simpa using skips, inDevice⟩
  rw [spans, UInt32.zero_add, UInt32.toNat_ofNat']

end

end UBootV210.Nand
