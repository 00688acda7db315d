import Mathlib

/-! # The millisecond timer

Embedding of `arch/arm/cpu/armv7/s5p-common/timer.c`. The hardware counts down
once in a microsecond and goes on at the highest value below zero. -/

namespace UBootV210.Board

structure TimerData where
  timerResetValue : UInt64
  lastinc : UInt32
  tbl : UInt32
  deriving DecidableEq

/-- What `timer_get_us_down` reads a number of microseconds after the counter showed `start`. -/
def timerGetUsDown (start : UInt32) (time : Nat) : UInt32 := start - UInt32.ofNat time

def resetTimerMasked (data : TimerData) (now : UInt32) : TimerData :=
  { data with lastinc := now, tbl := 0 }

/-- `timer_init` reads the counter twice, `early` and `now`. -/
def timerInit (data : TimerData) (early now : UInt32) : TimerData :=
  resetTimerMasked { data with timerResetValue := 0, lastinc := early } now

def getTimer (data : TimerData) (now base : UInt32) : UInt32 × TimerData :=
  let total := data.timerResetValue + (data.lastinc - now).toUInt64
  ((total / 1000).toUInt32 - base, { data with timerResetValue := total, lastinc := now })

structure TimerCall where
  gap : Nat
  base : UInt32

def runCalls (start : UInt32) : Nat → TimerData → List TimerCall → TimerData
  | _, data, [] => data
  | time, data, call :: calls =>
      let now := time + call.gap
      runCalls start now (getTimer data (timerGetUsDown start now) call.base).2 calls

def elapsed (calls : List TimerCall) : Nat := (calls.map TimerCall.gap).sum

structure TimerData.Holds (data : TimerData) (start : UInt32) (time : Nat) : Prop where
  lastinc : data.lastinc = timerGetUsDown start time
  total : data.timerResetValue.toNat = time % 2 ^ 64

theorem timerGetUsDown_sub (short : gap < 2 ^ 32) :
    (timerGetUsDown start time - timerGetUsDown start (time + gap)).toNat = gap := by
  have distance : timerGetUsDown start time - timerGetUsDown start (time + gap) =
      UInt32.ofNat gap := by
    rw [timerGetUsDown, timerGetUsDown, UInt32.ofNat_add]
    grind
  rw [distance, UInt32.toNat_ofNat_of_lt' short]

theorem TimerData.Holds.getTimer (holds : data.Holds start time) (short : gap < 2 ^ 32)
    (base : UInt32) :
    (getTimer data (timerGetUsDown start (time + gap)) base).2.Holds start (time + gap) ∧
      (getTimer data (timerGetUsDown start (time + gap)) base).1 =
        UInt32.ofNat ((time + gap) % 2 ^ 64 / 1000) - base := by
  have total : (data.timerResetValue + (data.lastinc -
      timerGetUsDown start (time + gap)).toUInt64).toNat = (time + gap) % 2 ^ 64 := by
    rw [UInt64.toNat_add, UInt32.toNat_toUInt64, holds.lastinc, timerGetUsDown_sub short,
      holds.total, Nat.mod_add_mod]
  refine ⟨⟨rfl, total⟩, congrArg (· - base) (UInt32.toNat_inj.mp ?_)⟩
  rw [UInt64.toNat_toUInt32, UInt64.toNat_div, total]
  rfl

theorem timerInit_holds (data : TimerData) (early start : UInt32) :
    (timerInit data early start).Holds start 0 := by
  refine ⟨?_, rfl⟩
  simp [timerInit, resetTimerMasked, timerGetUsDown]

theorem TimerData.Holds.runCalls (holds : data.Holds start time)
    (short : ∀ call ∈ calls, call.gap < 2 ^ 32) :
    (runCalls start time data calls).Holds start (time + elapsed calls) := by
  induction calls generalizing time data with
  | nil => simpa [Board.runCalls, elapsed] using holds
  | cons call calls induction =>
    obtain ⟨callShort, restShort⟩ := List.forall_mem_cons.mp short
    have rest := induction (holds.getTimer callShort call.base).1 restShort
    rw [Nat.add_assoc] at rest
    simpa [elapsed, Board.runCalls] using rest

/-- The time of `get_timer` is counted in microseconds modulo `2 ^ 64` and handed out in
milliseconds, however often the counter wrapped between the calls before. -/
theorem getTimer_milliseconds (data : TimerData) (early start : UInt32) (calls : List TimerCall)
    (short : ∀ call ∈ calls, call.gap < 2 ^ 32) (gap : Nat) (gapShort : gap < 2 ^ 32) :
    (getTimer (runCalls start 0 (timerInit data early start) calls)
        (timerGetUsDown start (elapsed calls + gap)) 0).1.toNat =
      (elapsed calls + gap) % 2 ^ 64 / 1000 % 2 ^ 32 := by
  have holds := (timerInit_holds data early start).runCalls short
  rw [Nat.zero_add] at holds
  rw [(holds.getTimer gapShort 0).2, UInt32.sub_zero, UInt32.toNat_ofNat']

theorem getTimer_milliseconds_wrapped :
    (getTimer (runCalls 5 0 (timerInit ⟨9, 9, 9⟩ 8 5) [⟨3000, 0⟩, ⟨4294967295, 7⟩])
        (timerGetUsDown 5 (elapsed [⟨3000, 0⟩, ⟨4294967295, 7⟩] + 5000)) 0).1.toNat = 4294975 := by
  exact getTimer_milliseconds ⟨9, 9, 9⟩ 8 5 [⟨3000, 0⟩, ⟨4294967295, 7⟩] (by decide) 5000
    (by decide)

/-- The total of microseconds itself wraps, so that a run long enough loses its milliseconds. -/
theorem getTimer_total_wraps :
    let calls := List.replicate (2 ^ 32 + 1) (TimerCall.mk (2 ^ 32 - 1) 0)
    (∀ call ∈ calls, call.gap < 2 ^ 32) ∧ (getTimer (runCalls 0 0 (timerInit ⟨0, 0, 0⟩ 0 0) calls)
          (timerGetUsDown 0 (elapsed calls + 2)) 0).1.toNat ≠
        (elapsed calls + 2) / 1000 % 2 ^ 32 := by
  intro calls
  have short : ∀ call ∈ calls, call.gap < 2 ^ 32 := by
    intro call member
    rw [(List.mem_replicate.mp member).2]
    decide
  have total : elapsed calls = (2 ^ 32 + 1) * (2 ^ 32 - 1) := by
    rw [elapsed, List.map_replicate, List.sum_replicate, smul_eq_mul]
  have holds := (timerInit_holds ⟨0, 0, 0⟩ 0 0).runCalls short
  rw [Nat.zero_add] at holds
  refine ⟨short, ?_⟩
  rw [(holds.getTimer (by decide : 2 < 2 ^ 32) 0).2, total]
  decide

end UBootV210.Board
