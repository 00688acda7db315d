import UBootV210.Environment.EnvNandPowerLoss

/-! # Saves on a flash with errors

A save that returns 0 is what the next boot loads unless the erase of the copy
failed, or the serial of the copy it did not write is judged the newer one. -/

namespace UBootV210.Environment

variable {Data : Type} (crc32 : Data → UInt32)

/-- The call ends, and if it fails the copy is as it was or fails its CRC. -/
def Attempt.FailsOnly (old : Copy Data) (attempt : Attempt Data) : Prop :=
  (match attempt.erase with
    | .succeeds => True
    | .fails left | .unnoticed left => left = old ∨ Copy.Spoiled crc32 left
    | .cut _ => False) ∧
  match attempt.write with
    | .succeeds => True
    | .fails left => left = old ∨ Copy.Spoiled crc32 left
    | .cut _ => False
    | .cutAtEnd => False

def BoardEvent.FailuresOnly (board : Board Data) : BoardEvent Data → Prop
  | .boot => True
  | .save _ first second =>
      ∃ ram, board.ram = some ram ∧ first.FailsOnly crc32 (board.flash.copy ram.envIdx) ∧
        second.FailsOnly crc32 (board.flash.copy ram.otherIdx)

def FailureStep (board : Board Data) (event : BoardEvent Data) (next : Board Data) : Prop :=
  event.FailuresOnly crc32 board ∧ next = board.next crc32 event

def BoardEvent.returned (board : Board Data) : BoardEvent Data → Option Int
  | .boot => none
  | .save exported first second =>
      board.ram.bind fun ram => (saveenv crc32 first second exported board.flash ram).ret

/-- A serial is taken to be older than that of the other copy; `index` is the copy
with the older serial. -/
def Older (index : Fin 2) (older newer : UInt8) : Prop :=
  (older = 255 ∧ newer = 0) ∨ (older < newer ∧ ¬ (older = 0 ∧ newer = 255)) ∨
    (older = newer ∧ index = redundantIdx)

def Attempt.left (attempt : Attempt Data) : Option (Copy Data) :=
  match attempt.erase, attempt.write with
  | .fails left, _ => some left
  | _, .fails left => some left
  | _, _ => none

def Attempt.Noticed (attempt : Attempt Data) : Prop :=
  ∀ written, attempt.erase ≠ .unnoticed written

def Attempt.deciding (first second : Attempt Data) : Attempt Data :=
  if first.left.isNone then first else second

/-- The copy that a save does not write, and what is in it: the one for the next
save, or the one on which the first attempt failed. -/
def Board.stale (board : Board Data) (ram : Ram Data) (first : Attempt Data) :
    Fin 2 × Copy Data :=
  match first.left with
  | none => (ram.otherIdx, board.flash.copy ram.otherIdx)
  | some left => (ram.envIdx, left)

/-- The copy that a save does not write is no longer valid, or holds the same
environment, or has a serial that is older than the next one. -/
def Board.Supersedes (board : Board Data) (data : Data) (first : Attempt Data) : Prop :=
  ∀ ram, board.ram = some ram → ∀ env, Copy.valid crc32 (board.stale ram first).2 = some env →
    env.data = data ∨ Older (board.stale ram first).1 env.flags (ram.envFlags + 1)

variable {crc32}

/-! ## The boot after a save -/

theorem newerCopy_eq_one_iff : newerCopy flags1 flags2 = 1 ↔ Older 1 flags2 flags1 := by
  rw [newerCopy, Older]
  grind

theorem newerCopy_ne_one_iff : newerCopy flags1 flags2 ≠ 1 ↔ Older 0 flags1 flags2 := by
  rw [newerCopy, Older]
  grind

theorem boot_environment_iff (written : Copy.valid crc32 (flash.copy index) = some env) :
    (boot crc32 flash).environment = some env.data ↔
      ∀ other, Copy.valid crc32 (flash.copy (index + 1)) = some other →
        other.data = env.data ∨ Older (index + 1) other.flags env.flags := by
  match index with
  | 0 =>
    change Copy.valid crc32 flash.primary = some env at written
    change _ ↔ ∀ other, Copy.valid crc32 flash.redundant = some other →
      other.data = env.data ∨ Older 1 other.flags env.flags
    cases redundant : Copy.valid crc32 flash.redundant with
    | none => simp [boot, envRelocateSpec, written, redundant, loadEnv]
    | some other =>
      simp only [boot, envRelocateSpec, written, redundant, loadEnv, Option.some.injEq,
        forall_eq', ← newerCopy_eq_one_iff]
      by_cases first : newerCopy env.flags other.flags = 1
      · simp [first]
      · simp [first]
  | 1 =>
    change Copy.valid crc32 flash.redundant = some env at written
    change _ ↔ ∀ other, Copy.valid crc32 flash.primary = some other →
      other.data = env.data ∨ Older 0 other.flags env.flags
    cases primary : Copy.valid crc32 flash.primary with
    | none => simp [boot, envRelocateSpec, written, primary, loadEnv]
    | some other =>
      simp only [boot, envRelocateSpec, written, primary, loadEnv, Option.some.injEq,
        forall_eq', ← newerCopy_ne_one_iff]
      by_cases first : newerCopy other.flags env.flags = 1
      · simp [first]
      · simp [first]

theorem FailureStep.boots
    (run : Run (FailureStep crc32) board (List.replicate (count + 1) .boot) final) :
    final.ram = some (boot crc32 board.flash) := by
  induction count generalizing board with
  | zero =>
    cases run with
    | cons step rest =>
      cases rest with
      | nil => rw [step.2]; rfl
  | succ count induction =>
    cases run with
    | cons step rest =>
      have later := induction rest
      rw [step.2] at later
      exact later

theorem Attempt.FailsOnly.ends (fails : attempt.FailsOnly crc32 old) (envNew : EnvT Data) :
    (attempt.left = none ∧ ∃ written, eraseAndWriteEnv attempt envNew = (some 0, written) ∧
        (attempt.Noticed → written = some envNew)) ∨
      ∃ left, attempt.left = some left ∧ eraseAndWriteEnv attempt envNew = (some 1, left) := by
  obtain ⟨erase, write⟩ := attempt
  cases write with
  | cut left => exact fails.2.elim
  | cutAtEnd => exact fails.2.elim
  | fails left =>
    cases erase with
    | cut left => exact fails.1.elim
    | fails left => exact .inr ⟨left, rfl, rfl⟩
    | unnoticed written => exact .inr ⟨left, rfl, rfl⟩
    | succeeds => exact .inr ⟨left, rfl, rfl⟩
  | succeeds =>
    cases erase with
    | cut left => exact fails.1.elim
    | fails left => exact .inr ⟨left, rfl, rfl⟩
    | unnoticed written => exact .inl ⟨rfl, written, rfl, fun noticed => absurd rfl (noticed _)⟩
    | succeeds => exact .inl ⟨rfl, _, rfl, fun _ => rfl⟩

theorem FailureStep.saved {saved : Board Data}
    (step : FailureStep crc32 ⟨flash, some ram⟩ (.save (some data) first second) saved)
    (noticed : (first.deciding second).Noticed) (returned :
      (BoardEvent.save (some data) first second).returned crc32 ⟨flash, some ram⟩ = some 0) :
    saved.flash.copy ((Board.stale ⟨flash, some ram⟩ ram first).1 + 1) =
        some ⟨crc32 data, ram.envFlags + 1, data⟩ ∧
      saved.flash.copy (Board.stale ⟨flash, some ram⟩ ram first).1 =
        (Board.stale ⟨flash, some ram⟩ ram first).2 := by
  obtain ⟨⟨_, running, firstEnds, secondEnds⟩, rfl⟩ := step
  cases running
  have index : ({ ram with envFlags := ram.envFlags + 1 } : Ram Data).envIdx = ram.envIdx := rfl
  rcases firstEnds.ends ⟨crc32 data, ram.envFlags + 1, data⟩ with
    ⟨succeeds, _, ends, erased⟩ | ⟨left, leaves, failed⟩
  · rw [Attempt.deciding, succeeds] at noticed
    rw [erased noticed] at ends
    have written : (Board.next crc32 ⟨flash, some ram⟩ (.save (some data) first second)).flash =
        flash.store (some ⟨crc32 data, ram.envFlags + 1, data⟩) ram.envIdx := by
      simp only [Board.next, saveenv, ends, index]
      rfl
    rw [written]
    simp only [Board.stale, succeeds, other_other, Flash.copy_store, Flash.copy_store_other,
      and_self]
  · rw [Attempt.deciding, leaves] at noticed
    rcases secondEnds.ends ⟨crc32 data, ram.envFlags + 1, data⟩ with
      ⟨_, _, ends, erased⟩ | ⟨_, -, failedAgain⟩
    · rw [erased noticed] at ends
      have written : (Board.next crc32 ⟨flash, some ram⟩ (.save (some data) first second)).flash =
            (flash.store left ram.envIdx).store (some ⟨crc32 data, ram.envFlags + 1, data⟩)
              (ram.envIdx + 1) := by
        simp only [Board.next, saveenv, failed, ends, index]
        rfl
      have kept := Flash.copy_store_other (flash.store left ram.envIdx)
        (some ⟨crc32 data, ram.envFlags + 1, data⟩) (ram.envIdx + 1)
      rw [other_other, Flash.copy_store] at kept
      rw [written]
      simp only [Board.stale, leaves, Flash.copy_store, kept, and_self]
    · have ret : (BoardEvent.save (some data) first second).returned crc32 ⟨flash, some ram⟩ =
          some 1 := by
        simp only [BoardEvent.returned, Option.bind_some, saveenv, failed, failedAgain]
        rfl
      cases ret.symm.trans returned

/-- In every state, if a save returns 0 and its erase did not fail, the boots after it load
the environment that it exported exactly if it supersedes the copy that it did not write. -/
theorem FailureStep.loaded_iff {board saved final : Board Data}
    (step : FailureStep crc32 board (.save (some data) first second) saved)
    (noticed : (first.deciding second).Noticed)
    (returned : (BoardEvent.save (some data) first second).returned crc32 board = some 0)
    (boots : Run (FailureStep crc32) saved (List.replicate (count + 1) .boot) final) :
    final.ram.bind Ram.environment = some data ↔ board.Supersedes crc32 data first := by
  obtain ⟨flash, power⟩ := board
  cases power with
  | none => cases returned
  | some ram =>
    have copies := step.saved noticed returned
    have written : Copy.valid crc32
        (saved.flash.copy ((Board.stale ⟨flash, some ram⟩ ram first).1 + 1)) =
          some ⟨crc32 data, ram.envFlags + 1, data⟩ := by
      rw [copies.1]
      simp [Copy.valid]
    have loads := boot_environment_iff written
    rw [other_other, copies.2] at loads
    rw [FailureStep.boots boots]
    simpa [Board.Supersedes] using loads

/-! ## Histories of saves that supersede -/

variable (crc32) in
/-- A save of which one attempt returns 0 has erased the copy that it writes, and supersedes
the other one. -/
def BoardEvent.Superseding (board : Board Data) : BoardEvent Data → Prop
  | .save (some data) first second => first.left = none ∨ second.left = none →
      (first.deciding second).Noticed ∧ board.Supersedes crc32 data first
  | _ => True

variable (crc32) in
def SupersedingStep (board : Board Data) (event : BoardEvent Data) (next : Board Data) : Prop :=
  FailureStep crc32 board event next ∧ event.Superseding crc32 board

theorem SupersedingStep.foldl_next (run : Run (SupersedingStep crc32) start events final) :
    final = events.foldl (Board.next crc32) start := by
  induction run with
  | nil => rfl
  | cons step _ induction =>
    rw [List.foldl_cons, ← step.1.2]
    exact induction

theorem FailureStep.succeeds {board saved : Board Data}
    (step : FailureStep crc32 board (.save (some data) first second) saved)
    (returned : (BoardEvent.save (some data) first second).returned crc32 board = some 0) :
    first.left = none ∨ second.left = none := by
  obtain ⟨⟨ram, running, firstEnds, secondEnds⟩, -⟩ := step
  obtain ⟨flash, power⟩ := board
  cases running
  rcases firstEnds.ends ⟨crc32 data, ram.envFlags + 1, data⟩ with succeeds | ⟨_, -, failed⟩
  · exact .inl succeeds.1
  · rcases secondEnds.ends ⟨crc32 data, ram.envFlags + 1, data⟩ with succeeds | ⟨_, -, failedAgain⟩
    · exact .inr succeeds.1
    · simp only [BoardEvent.returned, Option.bind_some, saveenv, failed, failedAgain] at returned
      cases returned

/-- In every history whose saves erase the copy that they write and supersede the other one,
the boots right after a save that returned 0 load the environment that it exported. -/
theorem saved_environment_loaded {start final : Board Data} {events : List (BoardEvent Data)}
    (run : Run (SupersedingStep crc32) start events final)
    {before after : List (BoardEvent Data)} {data : Data} {first second : Attempt Data}
    {count : Nat}
    (history : events =
      (before ++ .save (some data) first second :: List.replicate (count + 1) .boot) ++ after)
    (returned : (BoardEvent.save (some data) first second).returned crc32
      (before.foldl (Board.next crc32) start) = some 0) :
    (List.foldl (Board.next crc32) start
      (before ++ .save (some data) first second :: List.replicate (count + 1) .boot)).ram.bind
        Ram.environment = some data := by
  rw [history] at run
  obtain ⟨booted, earlier, -⟩ := run.split
  rw [← SupersedingStep.foldl_next earlier]
  obtain ⟨board, front, back⟩ := earlier.split
  rw [← SupersedingStep.foldl_next front] at returned
  cases back with
  | cons step boots =>
    obtain ⟨noticed, supersedes⟩ := step.2 (step.1.succeeds returned)
    exact (step.1.loaded_iff noticed returned (boots.mono fun step => step.1)).mpr supersedes

/-- A save that fails on the copy it tries first, whose erase failed, with no wrap. -/
theorem saved_environment_loaded_fallback :
    let start : Board UInt32 := ⟨⟨some ⟨7, 6, 7⟩, some ⟨8, 7, 8⟩⟩, none⟩
    let first : Attempt UInt32 := ⟨.unnoticed (some ⟨7, 6, 7⟩), .fails (some ⟨7, 6, 7⟩)⟩
    let save : BoardEvent UInt32 := .save (some 9) first ⟨.succeeds, .succeeds⟩
    ∃ final, Run (SupersedingStep id) start [.boot, save, .boot] final ∧
      save.returned id ([.boot].foldl (Board.next id) start) = some 0 ∧
      ([.boot, save, .boot].foldl (Board.next id) start).ram.bind Ram.environment = some 9 := by
  intro start first save
  let flash : Flash UInt32 := ⟨some ⟨7, 6, 7⟩, some ⟨9, 8, 9⟩⟩
  have superseding : save.Superseding id ⟨start.flash, some ⟨2, 7, some 8⟩⟩ := by
    refine fun _ => ⟨nofun, fun ram running env valid => ?_⟩
    cases running
    cases valid
    exact .inr (.inr (.inl (by decide)))
  have run : Run (SupersedingStep id) start [.boot, save, .boot] ⟨flash, some ⟨2, 8, some 9⟩⟩ := by
    apply @Run.cons _ _ _ _ ⟨start.flash, some ⟨2, 7, some 8⟩⟩
    · exact ⟨⟨trivial, by decide⟩, trivial⟩
    apply @Run.cons _ _ _ _ ⟨flash, some ⟨2, 8, some 8⟩⟩
    · exact ⟨⟨⟨_, rfl, ⟨.inl rfl, .inl rfl⟩, trivial, trivial⟩, by decide⟩, superseding⟩
    apply @Run.cons _ _ _ _ ⟨flash, some ⟨2, 8, some 9⟩⟩
    · exact ⟨⟨trivial, by decide⟩, trivial⟩
    exact .nil _
  have returned : save.returned id ([.boot].foldl (Board.next id) start) = some 0 := by decide
  exact ⟨_, run, returned, @saved_environment_loaded _ _ _ _ _ run [.boot] [] _ _ _ 0 rfl returned⟩

def completedSaves (datas : List Data) : List (BoardEvent Data) :=
  datas.map fun data => .save (some data) ⟨.succeeds, .succeeds⟩ ⟨.succeeds, .succeeds⟩

theorem completedSaves_run (datas : List Data) (flash : Flash Data) (ram : Ram Data) :
    Run (FailureStep crc32) ⟨flash, some ram⟩ (completedSaves datas)
      ((completedSaves datas).foldl (Board.next crc32) ⟨flash, some ram⟩) := by
  induction datas generalizing flash ram with
  | nil => exact .nil _
  | cons data datas induction =>
    exact .cons ⟨⟨ram, rfl, ⟨trivial, trivial⟩, trivial, trivial⟩, rfl⟩ (induction _ _)

/-- An empty flash, 255 saves, and one that the first copy does not take: it returns
0 with serial 0, and the boot after it loads the copy with serial 254. And a single save
whose erase fails and whose write spoils the copy returns 0. -/
theorem stale_environment_loaded : (let start : Board Nat := ⟨⟨none, none⟩, none⟩
      let last : BoardEvent Nat := .save (some 256)
        ⟨.unnoticed none, .fails (some ⟨254, 254, 254⟩)⟩ ⟨.succeeds, .succeeds⟩
      ∃ board saved final,
        Run (FailureStep UInt32.ofNat) start (.boot :: completedSaves (List.range' 1 255)) board ∧
        FailureStep UInt32.ofNat board last saved ∧ last.returned UInt32.ofNat board = some 0 ∧
        FailureStep UInt32.ofNat saved .boot final ∧
        final.ram.bind Ram.environment = some 254) ∧
    let start : Board Nat := ⟨⟨some ⟨7, 6, 7⟩, some ⟨8, 7, 8⟩⟩, none⟩
    let save : BoardEvent Nat := .save (some 9) ⟨.unnoticed none, .succeeds⟩ ⟨.succeeds, .succeeds⟩
    ∃ board saved final, FailureStep UInt32.ofNat start .boot board ∧
      FailureStep UInt32.ofNat board save saved ∧ save.returned UInt32.ofNat board = some 0 ∧
      FailureStep UInt32.ofNat saved .boot final ∧ final.ram.bind Ram.environment = some 8 := by
  constructor
  · intro start last
    have reached : (completedSaves (List.range' 1 255)).foldl (Board.next UInt32.ofNat)
        ⟨⟨none, none⟩, some envInit⟩ =
          ⟨⟨some ⟨254, 254, 254⟩, some ⟨255, 255, 255⟩⟩, some ⟨2, 255, none⟩⟩ := by
      decide +kernel
    have run := @completedSaves_run Nat UInt32.ofNat (List.range' 1 255) ⟨none, none⟩ envInit
    rw [reached] at run
    refine ⟨_, ⟨⟨some ⟨254, 254, 254⟩, some ⟨256, 0, 256⟩⟩, some ⟨2, 0, none⟩⟩,
      ⟨⟨some ⟨254, 254, 254⟩, some ⟨256, 0, 256⟩⟩, some ⟨1, 254, some 254⟩⟩,
      .cons ⟨trivial, by decide⟩ run, ⟨⟨_, rfl, ⟨.inr rfl, .inl rfl⟩, trivial, trivial⟩, ?_⟩, ?_,
      ⟨trivial, ?_⟩, rfl⟩
    · decide
    · decide
    · decide
  · exact ⟨_, _, _, ⟨trivial, rfl⟩, ⟨⟨_, rfl, ⟨.inr rfl, trivial⟩, trivial, trivial⟩, rfl⟩, rfl,
      ⟨trivial, rfl⟩, rfl⟩

end UBootV210.Environment
