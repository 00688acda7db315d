import Mathlib.Order.Monotone.Basic
import Mathlib.Data.Nat.Count
import UBootV210.Nand.PageWrite
import UBootV210.Nand.SkipBadWalk

/-! # Erasing NAND flash

An embedding of `nand_erase_opts` (without `scrub` and `jffs2`) and of the functions
that erase one block for it. An erase that fails is only printed, so a return value
of 0 says that every block was tried. -/

namespace UBootV210.Nand

structure EraseDriver where
  writeProtected : Bool
  fails : UInt64 → Bool

/-- The blocks that an erase command was sent for, and those it succeeded for. -/
structure EraseLog where
  sent : List UInt64
  erased : List UInt64
  deriving DecidableEq

variable {Chip : Type}

def nandEraseNand (mtd : MtdInfo Chip) (driver : EraseDriver) (log : EraseLog) (addr : UInt64) :
    Int × EraseLog :=
  if addr &&& (mtd.erasesize - 1).toUInt64 ≠ 0 then
    (-EINVAL, log)
  else if driver.writeProtected then
    (-ioError, log)
  else if mtd.blockIsbad addr ≠ 0 then
    (-ioError, log)
  else if driver.fails addr then
    (-ioError, { log with sent := log.sent ++ [addr] })
  else
    (0, ⟨log.sent ++ [addr], log.erased ++ [addr]⟩)

def mtdErase (mtd : MtdInfo Chip) (driver : EraseDriver) (log : EraseLog) (addr : UInt64) :
    Int × EraseLog :=
  if mtd.size < addr ∨ mtd.size - addr < mtd.erasesize.toUInt64 then
    (-EINVAL, log)
  else if mtd.writeable = false then
    (-EROFS, log)
  else if mtd.erasesize = 0 then
    (0, log)
  else
    nandEraseNand mtd driver log addr

/-! ## A range -/

/-- `nand_erase_options_t`; an offset is a 64-bit word. -/
structure EraseOptions where
  length : UInt64
  offset : UInt64
  quiet : Bool
  spread : Bool
  lim : UInt64

inductive EraseMessage
  | unaligned
  | exceedsLimit
  | skipping (addr : UInt64)
  | isbadFailed (ret : Int)
  | eraseFailure (result : Int)
  | erasing (addr : UInt64) (percent : Nat)
  | newline
  deriving DecidableEq

structure EraseState where
  log : EraseLog
  console : List EraseMessage
  deriving DecidableEq

def EraseState.print (state : EraseState) (message : EraseMessage) : EraseState :=
  { state with console := state.console ++ [message] }

def EraseState.printUnless (state : EraseState) (quiet : Bool) (message : EraseMessage) :
    EraseState :=
  bif quiet then state else state.print message

section

variable (mtd : MtdInfo Chip) (driver : EraseDriver) (opts : EraseOptions)

/-- `lldiv(opts->length + meminfo->erasesize - 1, meminfo->erasesize)`, stored in an
`unsigned long`. -/
def eraseLength : UInt32 :=
  ((opts.length + mtd.erasesize.toUInt64 - 1) / mtd.erasesize.toUInt64).toUInt32

-- A failed erase takes the same way as one that succeeded, without the progress message.
def eraseLoop : Nat → UInt64 → UInt32 → Int → EraseState → Exec (Int × EraseState)
  | 0, _, _, _, _ => .error .diverges
  | fuel + 1, addr, erasedLength, percentComplete, state =>
      if erasedLength < eraseLength mtd opts then
        if opts.lim ≠ 0 ∧ opts.offset + opts.lim ≤ addr then
          .ok (-EFBIG, state.print .exceedsLimit)
        else if mtdBlockIsbad mtd addr > 0 then
          eraseLoop fuel (addr + mtd.erasesize.toUInt64)
            (if opts.spread then erasedLength else erasedLength + 1) percentComplete
            (state.printUnless opts.quiet (.skipping addr))
        else if mtdBlockIsbad mtd addr < 0 then
          .ok (-1, state.print (.isbadFailed (mtdBlockIsbad mtd addr)))
        else
          let (result, log) := mtdErase mtd driver state.log addr
          let state := { state with log := log }
          if result ≠ 0 then
            eraseLoop fuel (addr + mtd.erasesize.toUInt64) (erasedLength + 1) percentComplete
              (state.print (.eraseFailure result))
          else
            let percent := (erasedLength + 1).toNat * 100 / (eraseLength mtd opts).toNat
            if opts.quiet ∨ percent = percentComplete then
              eraseLoop fuel (addr + mtd.erasesize.toUInt64) (erasedLength + 1) percentComplete
                state
            else
              eraseLoop fuel (addr + mtd.erasesize.toUInt64) (erasedLength + 1) percent
                (state.print (.erasing addr percent))
      else
        .ok (0, state.printUnless opts.quiet .newline)

def eraseFuel : Nat := mtd.size.toNat / mtd.erasesize.toNat + 2

def nandEraseOpts : Exec (Int × EraseState) :=
  if opts.offset &&& (mtd.erasesize - 1).toUInt64 ≠ 0 then
    .ok (-1, ⟨⟨[], []⟩, [.unaligned]⟩)
  else
    eraseLoop mtd driver opts (eraseFuel mtd) opts.offset 0 (-1) ⟨⟨[], []⟩, []⟩

end

variable {index stop : Nat}

section

variable (mtd : MtdInfo Chip) (opts : EraseOptions)

def blockAddress (index : Nat) : UInt64 :=
  .ofNat (opts.offset.toNat + index * mtd.erasesize.toNat)

def GoodBlock (index : Nat) : Prop :=
  opts.offset.toNat + index * mtd.erasesize.toNat ≤ mtd.size.toNat ∧
    mtdBlockIsbad mtd (blockAddress mtd opts index) = 0

instance : DecidablePred (GoodBlock mtd opts) := fun _ => inferInstanceAs (Decidable (_ ∧ _))

def countedBefore (index : Nat) : Nat :=
  if opts.spread then Nat.count (GoodBlock mtd opts) index else index

def ShouldErase (count index : Nat) : Prop :=
  GoodBlock mtd opts index ∧ countedBefore mtd opts index < count

def askedBlocks : Nat :=
  (opts.length.toNat + mtd.erasesize.toNat - 1) / mtd.erasesize.toNat

/-- What a return value of 0 should say. -/
structure HonestErase (log : EraseLog) : Prop where
  erased : ∀ index, ShouldErase mtd opts (askedBlocks mtd opts) index →
    blockAddress mtd opts index ∈ log.erased
  untouched : ∀ addr ∈ log.sent, mtd.blockIsbad addr = 0

variable {mtd opts}

theorem countedBefore_succ (index : Nat) : countedBefore mtd opts (index + 1) =
    if opts.spread ∧ ¬ GoodBlock mtd opts index then
      countedBefore mtd opts index
    else
      countedBefore mtd opts index + 1 := by
  simp only [countedBefore]
  cases opts.spread with
  | false => simp
  | true =>
    by_cases good : GoodBlock mtd opts index
    · simp [Nat.count_succ, good]
    · simp [Nat.count_succ, good]

theorem countedBefore_mono : Monotone (countedBefore mtd opts) := by
  apply monotone_nat_of_le_succ
  intro index
  rw [countedBefore_succ]
  split <;> omega

theorem GoodBlock.lt_iff (good : GoodBlock mtd opts index) :
    index < stop ↔ countedBefore mtd opts index < countedBefore mtd opts stop := by
  constructor
  · intro before
    have next := @countedBefore_mono _ mtd opts _ _ (Nat.succ_le_of_lt before)
    rw [countedBefore_succ, if_neg (fun both => both.2 good)] at next
    omega
  · intro less
    by_contra after
    have reached := @countedBefore_mono _ mtd opts _ _ (Nat.le_of_not_lt after)
    omega

end

section

variable {mtd : MtdInfo Chip} {driver : EraseDriver}

theorem mtdErase_result :
    (mtdErase mtd driver log addr).1 = (mtdErase mtd driver other addr).1 := by
  simp only [mtdErase, nandEraseNand]
  split_ifs <;> rfl

inductive EraseOutcome (mtd : MtdInfo Chip) (log : EraseLog) (addr : UInt64) :
    Int × EraseLog → Prop
  | refused {result : Int} : result ≠ 0 → EraseOutcome mtd log addr (result, log)
  | failed : mtd.blockIsbad addr = 0 →
      EraseOutcome mtd log addr (-ioError, { log with sent := log.sent ++ [addr] })
  | erased : mtd.blockIsbad addr = 0 →
      EraseOutcome mtd log addr (0, ⟨log.sent ++ [addr], log.erased ++ [addr]⟩)

theorem nandEraseNand_outcome : EraseOutcome mtd log addr (nandEraseNand mtd driver log addr) := by
  rw [nandEraseNand]
  split
  · exact .refused (by decide)
  split
  · exact .refused (by decide)
  split
  · exact .refused (by decide)
  rename_i good
  split
  · exact .failed (not_not.mp good)
  · exact .erased (not_not.mp good)

theorem mtdErase_outcome (sized : mtd.erasesize ≠ 0) (log : EraseLog) (addr : UInt64) :
    EraseOutcome mtd log addr (mtdErase mtd driver log addr) := by
  rw [mtdErase]
  split
  · exact .refused (by decide)
  split
  · exact .refused (by decide)
  · exact nandEraseNand_outcome

namespace EraseOutcome

variable {log : EraseLog} {addr : UInt64} {erase : Int × EraseLog}

theorem mem_erased (outcome : EraseOutcome mtd log addr erase) :
    block ∈ erase.2.erased ↔ block ∈ log.erased ∨ (erase.1 = 0 ∧ block = addr) := by
  cases outcome with
  | refused nonzero => simp [nonzero]
  | failed => simp [ioError]
  | erased => simp

theorem sent (outcome : EraseOutcome mtd log addr erase)
    (member : block ∈ erase.2.sent) : block ∈ log.sent ∨ mtd.blockIsbad block = 0 := by
  cases outcome with
  | refused => exact .inl member
  | failed good | erased good =>
    rcases List.mem_append.mp member with old | new
    · exact .inl old
    · rw [List.mem_singleton.mp new]
      exact .inr good

end EraseOutcome

end

/-! ## The loop -/

section

variable {mtd : MtdInfo Chip} {driver : EraseDriver} {opts : EraseOptions}

variable (mtd driver opts) in
def Erasable (index : Nat) : Prop :=
  (mtdErase mtd driver ⟨[], []⟩ (blockAddress mtd opts index)).1 = 0

theorem blockAddress_succ :
    blockAddress mtd opts index + mtd.erasesize.toUInt64 = blockAddress mtd opts (index + 1) := by
  have size : mtd.erasesize.toUInt64 = UInt64.ofNat mtd.erasesize.toNat := by
    apply UInt64.toNat_inj.mp
    rw [UInt32.toNat_toUInt64, UInt64.toNat_ofNat_of_lt']
    exact Nat.lt_trans mtd.erasesize.toNat_lt (by decide)
  rw [size, blockAddress, blockAddress, ← UInt64.ofNat_add, Nat.add_mul, Nat.one_mul, Nat.add_assoc]

def Addressable (mtd : MtdInfo Chip) (opts : EraseOptions) (index : Nat) : Prop :=
  opts.offset.toNat + index * mtd.erasesize.toNat < 2 ^ 64

theorem Addressable.toNat_blockAddress (addressable : Addressable mtd opts index) :
    (blockAddress mtd opts index).toNat = opts.offset.toNat + index * mtd.erasesize.toNat :=
  UInt64.toNat_ofNat_of_lt' addressable

theorem Addressable.inside (addressable : Addressable mtd opts index)
    (asked : ¬ mtdBlockIsbad mtd (blockAddress mtd opts index) < 0) :
    opts.offset.toNat + index * mtd.erasesize.toNat ≤ mtd.size.toNat := by
  by_contra beyond
  apply asked
  have past : mtd.size < blockAddress mtd opts index := by
    rw [UInt64.lt_iff_toNat_lt, addressable.toNat_blockAddress]
    omega
  rw [mtdBlockIsbad, if_pos (by simp [past])]
  decide

inductive EraseTurn (mtd : MtdInfo Chip) (driver : EraseDriver) (opts : EraseOptions)
    (fuel index : Nat) (erasedLength : UInt32) (state : EraseState) :
    Exec (Int × EraseState) → Prop
  | done {last : EraseState} : ¬ erasedLength < eraseLength mtd opts → last.log = state.log →
      EraseTurn mtd driver opts fuel index erasedLength state (.ok (0, last))
  | stopped {ret : Int} {last : EraseState} : ret ≠ 0 →
      EraseTurn mtd driver opts fuel index erasedLength state (.ok (ret, last))
  | bad {percent : Int} {next : EraseState} : erasedLength < eraseLength mtd opts →
      opts.offset.toNat + index * mtd.erasesize.toNat ≤ mtd.size.toNat →
      ¬ GoodBlock mtd opts index → next.log = state.log →
      EraseTurn mtd driver opts fuel index erasedLength state
        (eraseLoop mtd driver opts fuel (blockAddress mtd opts (index + 1))
          (if opts.spread then erasedLength else erasedLength + 1) percent next)
  | good {percent : Int} {next : EraseState} : erasedLength < eraseLength mtd opts →
      GoodBlock mtd opts index →
      next.log = (mtdErase mtd driver state.log (blockAddress mtd opts index)).2 →
      EraseTurn mtd driver opts fuel index erasedLength state
        (eraseLoop mtd driver opts fuel (blockAddress mtd opts (index + 1)) (erasedLength + 1)
          percent next)

theorem EraseState.printUnless_log (state : EraseState) :
    (state.printUnless quiet message).log = state.log := by
  cases quiet <;> rfl

theorem eraseLoop_turn {index : Nat} (addressable : Addressable mtd opts index) (fuel : Nat)
    (erasedLength : UInt32) (percent : Int) (state : EraseState) :
    EraseTurn mtd driver opts fuel index erasedLength state
      (eraseLoop mtd driver opts (fuel + 1) (blockAddress mtd opts index) erasedLength percent
        state) := by
  rw [eraseLoop]
  simp only [blockAddress_succ]
  split
  · rename_i more
    split
    · exact .stopped (by decide)
    split
    · rename_i isBad
      apply EraseTurn.bad more (addressable.inside (by omega))
      · intro good
        rw [good.2] at isBad
        exact absurd isBad (by decide)
      · exact state.printUnless_log
    split
    · exact .stopped (by decide)
    · rename_i notBad notNegative
      have good : GoodBlock mtd opts index := ⟨addressable.inside notNegative, by omega⟩
      split
      · exact .good more good rfl
      split
      · exact .good more good rfl
      · exact .good more good rfl
  · rename_i enough
    exact .done enough state.printUnless_log

structure Logged (mtd : MtdInfo Chip) (driver : EraseDriver) (opts : EraseOptions)
    (start stop : Nat) (log last : EraseLog) : Prop where
  erased : ∀ block, block ∈ last.erased ↔ block ∈ log.erased ∨
    ∃ index, start ≤ index ∧ index < stop ∧ GoodBlock mtd opts index ∧
      Erasable mtd driver opts index ∧ block = blockAddress mtd opts index
  sent : ∀ block ∈ last.sent, block ∈ log.sent ∨ mtd.blockIsbad block = 0

namespace Logged

variable {start stop : Nat} {log next last : EraseLog}

theorem refl : Logged mtd driver opts start start log log where
  erased := by
    intro block
    constructor
    · exact .inl
    · rintro (old | ⟨index, above, below, _⟩)
      · exact old
      · omega
  sent := fun _ => .inl

theorem skip (bad : ¬ GoodBlock mtd opts start)
    (rest : Logged mtd driver opts (start + 1) stop log last) :
    Logged mtd driver opts start stop log last where
  erased := by
    intro block
    rw [rest.erased]
    apply or_congr_right
    constructor
    · rintro ⟨index, above, found⟩
      exact ⟨index, by omega, found⟩
    · rintro ⟨index, above, below, good, found⟩
      have other : index ≠ start := fun same => bad (same ▸ good)
      exact ⟨index, by omega, below, good, found⟩
  sent := rest.sent

theorem erase (sized : mtd.erasesize ≠ 0) (good : GoodBlock mtd opts start) (more : start < stop)
    (rest : Logged mtd driver opts (start + 1) stop
      (mtdErase mtd driver log (blockAddress mtd opts start)).2 last) :
    Logged mtd driver opts start stop log last := by
  have outcome := @mtdErase_outcome _ mtd driver sized log (blockAddress mtd opts start)
  constructor
  · intro block
    rw [rest.erased, outcome.mem_erased, mtdErase_result, or_assoc]
    apply or_congr_right
    constructor
    · rintro (⟨erasable, same⟩ | ⟨index, above, found⟩)
      · exact ⟨start, Nat.le_refl _, more, good, erasable, same⟩
      · exact ⟨index, by omega, found⟩
    · rintro ⟨index, above, below, goodIndex, erasable, same⟩
      by_cases first : index = start
      · subst first
        exact .inl ⟨erasable, same⟩
      · exact .inr ⟨index, by omega, below, goodIndex, erasable, same⟩
  · intro block member
    rcases rest.sent block member with before | fine
    · exact outcome.sent before
    · exact .inr fine

end Logged

theorem toNat_succ_of_lt {count bound : UInt32} (less : count < bound) :
    (count + 1).toNat = count.toNat + 1 := by
  have word := bound.toNat_lt
  rw [UInt32.lt_iff_toNat_lt] at less
  exact Nat.mod_eq_of_lt (by simp; omega)

theorem MtdInfo.Regular.sized (regular : mtd.Regular) : mtd.erasesize ≠ 0 := by
  intro zero
  have positive := regular.positive
  rw [zero] at positive
  exact absurd positive (by decide)

theorem Addressable.succ (regular : mtd.Regular)
    (inside : opts.offset.toNat + index * mtd.erasesize.toNat ≤ mtd.size.toNat) :
    Addressable mtd opts (index + 1) := by
  have addressable := regular.addressable
  have block := regular.erasesize_le
  rw [Addressable, Nat.add_mul]
  omega

theorem inside_le (regular : mtd.Regular)
    (inside : opts.offset.toNat + index * mtd.erasesize.toNat ≤ mtd.size.toNat) :
    index ≤ mtd.size.toNat / mtd.erasesize.toNat := by
  rw [Nat.le_div_iff_mul_le regular.positive]
  omega

-- The induction is on the fuel; the invariant is that the loop has counted the blocks
-- behind it.
theorem eraseLoop_run (regular : mtd.Regular) {fuel index : Nat} {erasedLength : UInt32}
    {percent : Int} {state : EraseState} (addressable : Addressable mtd opts index)
    (enough : eraseFuel mtd ≤ fuel + index) (started : 0 < fuel)
    (counted : erasedLength.toNat = countedBefore mtd opts index)
    (within : erasedLength ≤ eraseLength mtd opts) :
    ∃ ret last, eraseLoop mtd driver opts fuel (blockAddress mtd opts index) erasedLength percent
        state = .ok (ret, last) ∧
      (ret = 0 → ∃ stop, index ≤ stop ∧ countedBefore mtd opts stop = (eraseLength mtd opts).toNat ∧
        Logged mtd driver opts index stop state.log last.log) := by
  induction fuel generalizing index erasedLength percent state with
  | zero => omega
  | succ fuel induction =>
    have turn := @eraseLoop_turn _ mtd driver opts index addressable fuel erasedLength percent state
    generalize eraseLoop mtd driver opts (fuel + 1) _ _ _ _ = outcome at turn ⊢
    have bound := (eraseLength mtd opts).toNat_lt
    rw [UInt32.le_iff_toNat_le] at within
    cases turn with
    | @done last finished same =>
      refine ⟨0, last, rfl, ?_⟩
      intro _
      rw [UInt32.lt_iff_toNat_lt] at finished
      rw [same]
      exact ⟨index, Nat.le_refl _, by omega, .refl⟩
    | stopped nonzero => exact ⟨_, _, rfl, fun zero => absurd zero nonzero⟩
    | @bad percent next more inside notGood same =>
      have near := inside_le regular inside
      have following := @countedBefore_succ _ mtd opts index
      rw [eraseFuel] at enough
      have passed := toNat_succ_of_lt more
      rw [UInt32.lt_iff_toNat_lt] at more
      obtain ⟨ret, last, returned, honest⟩ := @induction (index + 1)
        (if opts.spread then erasedLength else erasedLength + 1) percent next
        (.succ regular inside) (by rw [eraseFuel]; omega) (by omega)
        (by rw [following]; split_ifs <;> simp_all) (by
          rw [UInt32.le_iff_toNat_le]
          split_ifs <;> omega)
      refine ⟨ret, last, returned, ?_⟩
      intro zero
      obtain ⟨stop, reached, counted', logged⟩ := honest zero
      rw [same] at logged
      exact ⟨stop, by omega, counted', logged.skip notGood⟩
    | @good percent next more good same =>
      have near := inside_le regular good.1
      have following := @countedBefore_succ _ mtd opts index
      rw [if_neg (fun both => both.2 good)] at following
      rw [eraseFuel] at enough
      have passed := toNat_succ_of_lt more
      rw [UInt32.lt_iff_toNat_lt] at more
      obtain ⟨ret, last, returned, honest⟩ := @induction (index + 1) (erasedLength + 1) percent
        next (.succ regular good.1) (by rw [eraseFuel]; omega) (by omega) (by omega) (by
          rw [UInt32.le_iff_toNat_le]
          omega)
      refine ⟨ret, last, returned, ?_⟩
      intro zero
      obtain ⟨stop, reached, counted', logged⟩ := honest zero
      rw [same] at logged
      exact ⟨stop, by omega, counted', logged.erase regular.sized good (by omega)⟩

theorem blockAddress_injective (regular : mtd.Regular)
    (good : GoodBlock mtd opts index) (goodOther : GoodBlock mtd opts other)
    (same : blockAddress mtd opts index = blockAddress mtd opts other) : index = other := by
  have small := regular.addressable
  have addressable : Addressable mtd opts index := Nat.lt_of_le_of_lt good.1 (by omega)
  have addressableOther : Addressable mtd opts other := Nat.lt_of_le_of_lt goodOther.1 (by omega)
  have equal := congrArg UInt64.toNat same
  rw [addressable.toNat_blockAddress, addressableOther.toNat_blockAddress] at equal
  exact Nat.eq_of_mul_eq_mul_right regular.positive (Nat.add_left_cancel equal)

/-- Where the loop stops, all good blocks before are those that it should erase. -/
theorem shouldErase_iff (counted : countedBefore mtd opts stop = count) :
    ShouldErase mtd opts count index ↔ GoodBlock mtd opts index ∧ index < stop := by
  rw [← counted]
  apply and_congr_right
  intro good
  exact good.lt_iff.symm

theorem Logged.honest_iff (regular : mtd.Regular)
    (counted : countedBefore mtd opts stop = (eraseLength mtd opts).toNat)
    (logged : Logged mtd driver opts 0 stop ⟨[], []⟩ last) :
    HonestErase mtd opts last ↔ ∀ index, ShouldErase mtd opts (askedBlocks mtd opts) index →
      ShouldErase mtd opts (eraseLength mtd opts).toNat index ∧ Erasable mtd driver opts index := by
  have untouched : ∀ addr ∈ last.sent, mtd.blockIsbad addr = 0 := by
    intro addr member
    exact (logged.sent addr member).resolve_left List.not_mem_nil
  constructor
  · intro honest index asked
    have member := (logged.erased _).mp (honest.erased index asked)
    obtain ⟨found, _, below, good, erasable, same⟩ := member.resolve_left List.not_mem_nil
    have equal := blockAddress_injective regular asked.1 good same
    subst equal
    exact ⟨(shouldErase_iff counted).mpr ⟨good, below⟩, erasable⟩
  · intro all
    refine ⟨?_, untouched⟩
    intro index asked
    obtain ⟨reached, erasable⟩ := all index asked
    obtain ⟨good, below⟩ := (shouldErase_iff counted).mp reached
    exact (logged.erased _).mpr (.inr ⟨index, Nat.zero_le _, below, good, erasable, rfl⟩)

/-- The call ends. A return value of 0 is honest exactly if every block asked for is
counted by the 32-bit length and no erase of them fails. -/
theorem nandEraseOpts_honest_iff (regular : mtd.Regular) (driver : EraseDriver)
    (opts : EraseOptions) :
    ∃ ret last, nandEraseOpts mtd driver opts = .ok (ret, last) ∧
      (ret = 0 → (HonestErase mtd opts last.log ↔
        ∀ index, ShouldErase mtd opts (askedBlocks mtd opts) index →
          ShouldErase mtd opts (eraseLength mtd opts).toNat index ∧
            Erasable mtd driver opts index)) := by
  rw [nandEraseOpts]
  split
  · exact ⟨-1, _, rfl, fun zero => absurd zero (by decide)⟩
  · have first : blockAddress mtd opts 0 = opts.offset := by
      simp [blockAddress]
    have addressable : Addressable mtd opts 0 := by
      have word := opts.offset.toNat_lt
      rw [Addressable]
      omega
    have none : (0 : UInt32).toNat = countedBefore mtd opts 0 := by
      simp [countedBefore]
    obtain ⟨ret, last, returned, honest⟩ :=
      @eraseLoop_run _ mtd driver opts regular (eraseFuel mtd) 0
      0 (-1) ⟨⟨[], []⟩, []⟩ addressable (Nat.le_refl _) (Nat.succ_pos _) none UInt32.zero_le
    rw [first] at returned
    refine ⟨ret, last, returned, ?_⟩
    intro zero
    obtain ⟨stop, _, counted, logged⟩ := honest zero
    exact logged.honest_iff regular counted

end

def fourBlocks : MtdInfo Unit where
  size := 0x80000
  erasesize := 0x20000
  writesize := 0x800
  writeable := true
  eccStrength := 0
  bitflipThreshold := 0
  blockIsbad := fun _ => 0
  read := fun chip _ length => ⟨0, length, [], chip⟩
  write := fun chip _ bytes => ⟨0, .ofNat bytes.length, [], chip⟩

theorem fourBlocks_regular : fourBlocks.Regular := ⟨⟨17, by decide⟩, by decide⟩

theorem nandEraseOpts_honest_iff_two :
    ∃ ret last, nandEraseOpts fourBlocks ⟨false, fun _ => false⟩ ⟨0x40000, 0, true, true, 0⟩ =
        .ok (ret, last) ∧
      (ret = 0 → (HonestErase fourBlocks ⟨0x40000, 0, true, true, 0⟩ last.log ↔
        ∀ index, ShouldErase fourBlocks ⟨0x40000, 0, true, true, 0⟩
            (askedBlocks fourBlocks ⟨0x40000, 0, true, true, 0⟩) index →
          ShouldErase fourBlocks ⟨0x40000, 0, true, true, 0⟩
              (eraseLength fourBlocks ⟨0x40000, 0, true, true, 0⟩).toNat index ∧
            Erasable fourBlocks ⟨false, fun _ => false⟩ ⟨0x40000, 0, true, true, 0⟩ index)) :=
  nandEraseOpts_honest_iff fourBlocks_regular _ _

/-- The second block fails, and 0 is returned. -/
theorem nandEraseOpts_hides_failure :
    nandEraseOpts fourBlocks ⟨false, fun addr => addr = 0x20000⟩ ⟨0x40000, 0, true, false, 0⟩ =
        .ok (0, ⟨⟨[0, 0x20000], [0]⟩, [.eraseFailure (-ioError)]⟩) ∧
      ShouldErase fourBlocks ⟨0x40000, 0, true, false, 0⟩
        (askedBlocks fourBlocks ⟨0x40000, 0, true, false, 0⟩) 1 ∧
      ¬ HonestErase fourBlocks ⟨0x40000, 0, true, false, 0⟩ ⟨[0, 0x20000], [0]⟩ := by
  have asked : ShouldErase fourBlocks ⟨0x40000, 0, true, false, 0⟩
      (askedBlocks fourBlocks ⟨0x40000, 0, true, false, 0⟩) 1 :=
    ⟨⟨by decide, by decide⟩, by decide⟩
  refine ⟨by rfl, asked, ?_⟩
  intro honest
  have member := honest.erased 1 asked
  exact absurd member (by decide)

end UBootV210.Nand
