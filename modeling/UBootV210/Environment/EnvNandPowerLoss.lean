import UBootV210.Environment.EnvNand

/-! # Power loss during a save

The two copies together are a register that holds one environment: a save that is
cut short leaves the value it had or the new one. -/

namespace UBootV210.Environment

variable {Data : Type}

/-- What a history of saves leaves in the register: the last environment of which
every byte was written. -/
def BoardEvent.write (stored : Option Data) : BoardEvent Data → Option Data
  | .save (some data) ⟨.succeeds, .succeeds⟩ _ => some data
  | .save (some data) ⟨.succeeds, .cutAtEnd⟩ _ => some data
  | _ => stored

def lastWritten (events : List (BoardEvent Data)) : Option Data :=
  events.foldl BoardEvent.write none

/-- The last save that was completed, and the saves since then that were being
made when power was lost. -/
structure Saves (Data : Type) where
  completed : Option Data
  interrupted : List Data

def Saves.record (saves : Saves Data) : BoardEvent Data → Saves Data
  | .save (some data) ⟨.succeeds, .succeeds⟩ _ => ⟨some data, []⟩
  | .save (some data) ⟨.succeeds, .cutAtEnd⟩ _ =>
      { saves with interrupted := data :: saves.interrupted }
  | .save (some data) ⟨.succeeds, .cut _⟩ _ =>
      { saves with interrupted := data :: saves.interrupted }
  | .save (some data) ⟨.cut _, _⟩ _ => { saves with interrupted := data :: saves.interrupted }
  | _ => saves

def savesOf (events : List (BoardEvent Data)) : Saves Data :=
  events.foldl Saves.record ⟨none, []⟩

section

variable (crc32 : Data → UInt32)

def Copy.Spoiled (copy : Copy Data) : Prop := Copy.valid crc32 copy = none

/-- Nothing fails but the power. A copy that was being erased or written then fails
its CRC, unless the erase had not begun or the write had come to its end. -/
def BoardEvent.PowerLossOnly (board : Board Data) : BoardEvent Data → Prop
  | .boot => True
  | .save _ first _ =>
      ∃ ram, board.ram = some ram ∧
        match first.erase with
        | .fails _ => False
        | .unnoticed _ => False
        | .cut left => left = board.flash.copy ram.envIdx ∨ Copy.Spoiled crc32 left
        | .succeeds =>
            match first.write with
            | .fails _ => False
            | .cut left => Copy.Spoiled crc32 left
            | .cutAtEnd => True
            | .succeeds => True

def PowerStep (board : Board Data) (event : BoardEvent Data) (next : Board Data) : Prop :=
  event.PowerLossOnly crc32 board ∧ next = board.next crc32 event

/-- If both copies are valid, their serials follow each other. -/
def Flash.Consecutive (flash : Flash Data) : Prop :=
  ∀ env1 env2, Copy.valid crc32 flash.primary = some env1 →
    Copy.valid crc32 flash.redundant = some env2 →
    env2.flags = env1.flags + 1 ∨ env1.flags = env2.flags + 1

/-- The copy that holds the value: the other one is spoiled or one serial behind. -/
inductive Flash.Latest (flash : Flash Data) : Option (Fin 2 × EnvT Data) → Prop
  | empty (primary : Copy.Spoiled crc32 flash.primary)
      (redundant : Copy.Spoiled crc32 flash.redundant) : Latest flash none
  | newest (index : Fin 2) (env : EnvT Data)
      (valid : Copy.valid crc32 (flash.copy index) = some env)
      (behind : ∀ other, Copy.valid crc32 (flash.copy (index + 1)) = some other →
        env.flags = other.flags + 1) : Latest flash (some (index, env))

end

variable {crc32 : Data → UInt32}

def Ram.Knows (ram : Ram Data) : Option (Fin 2 × EnvT Data) → Prop
  | none => ram.envValid = 1
  | some (index, env) => ram.envValid = index.val + 1 ∧ ram.envFlags = env.flags

theorem newerCopy_succ (flags : UInt8) :
    newerCopy (flags + 1) flags = 1 ∧ newerCopy flags (flags + 1) = 2 := by
  by_cases wraps : flags = 255
  · rw [wraps]
    decide
  · have below : flags.toNat < 255 := by
      have bound := flags.toNat_lt
      have distinct : flags.toNat ≠ 255 := fun equal => wraps (UInt8.toNat_inj.mp equal)
      omega
    have next : (flags + 1).toNat = flags.toNat + 1 := by
      rw [UInt8.toNat_add, show UInt8.toNat 1 = 1 from rfl]
      omega
    have less : flags < flags + 1 := UInt8.lt_iff_toNat_lt.mpr (by omega)
    have notLess : ¬ flags + 1 < flags := fun greater => by
      have := UInt8.lt_iff_toNat_lt.mp greater
      omega
    have positive : flags + 1 ≠ 0 := fun zero => by
      rw [zero, show UInt8.toNat 0 = 0 from rfl] at next
      omega
    have notBoth : ¬ (flags + 1 = 255 ∧ flags = 0) := by
      intro both
      rw [both.2] at both
      exact absurd both.1 (by decide)
    simp [newerCopy, wraps, positive, less, notLess, notBoth]

variable {flash : Flash Data}

theorem Flash.Consecutive.latest (consecutive : flash.Consecutive crc32) :
    ∃ latest, flash.Latest crc32 latest := by
  cases primary : Copy.valid crc32 flash.primary with
  | none =>
    cases redundant : Copy.valid crc32 flash.redundant with
    | none => exact ⟨_, .empty primary redundant⟩
    | some env2 =>
      refine ⟨_, .newest 1 env2 redundant fun other valid => ?_⟩
      cases primary.symm.trans valid
  | some env1 =>
    cases redundant : Copy.valid crc32 flash.redundant with
    | none =>
      refine ⟨_, .newest 0 env1 primary fun other valid => ?_⟩
      cases redundant.symm.trans valid
    | some env2 =>
      rcases consecutive env1 env2 primary redundant with second | first
      · refine ⟨_, .newest 1 env2 redundant fun other valid => ?_⟩
        cases primary.symm.trans valid
        exact second
      · refine ⟨_, .newest 0 env1 primary fun other valid => ?_⟩
        cases redundant.symm.trans valid
        exact first

theorem Flash.Latest.boot_none (latest : flash.Latest crc32 none) : boot crc32 flash = envInit := by
  cases latest with
  | empty primary redundant =>
    simp only [Copy.Spoiled] at primary redundant
    simp only [boot, envRelocateSpec, primary, redundant]
    rfl

theorem Flash.Latest.boot_some (latest : flash.Latest crc32 (some (index, env))) :
    boot crc32 flash = loadEnv (index.val + 1) env := by
  cases latest with
  | newest _ _ valid behind =>
    match index with
    | 0 =>
      change Copy.valid crc32 flash.primary = some env at valid
      cases redundant : Copy.valid crc32 flash.redundant with
      | none =>
        simp only [boot, envRelocateSpec, valid, redundant]
        rfl
      | some other =>
        have serials := (newerCopy_succ other.flags).1
        rw [← behind other redundant] at serials
        simp only [boot, envRelocateSpec, valid, redundant, serials]
        rfl
    | 1 =>
      change Copy.valid crc32 flash.redundant = some env at valid
      cases primary : Copy.valid crc32 flash.primary with
      | none =>
        simp only [boot, envRelocateSpec, valid, primary]
        rfl
      | some other =>
        have serials := (newerCopy_succ other.flags).2
        rw [← behind other primary] at serials
        simp only [boot, envRelocateSpec, valid, primary, serials]
        rfl

variable {latest : Option (Fin 2 × EnvT Data)}

theorem Flash.Latest.boot_knows (holds : flash.Latest crc32 latest) :
    (boot crc32 flash).Knows latest ∧
      (boot crc32 flash).environment = latest.map fun newest => newest.2.data := by
  match latest with
  | none =>
    rw [holds.boot_none]
    exact ⟨rfl, rfl⟩
  | some (index, env) =>
    rw [holds.boot_some]
    exact ⟨⟨rfl, rfl⟩, rfl⟩

@[simp] theorem Flash.copy_store (flash : Flash Data) (copy : Copy Data) (index : Fin 2) :
    (flash.store copy index).copy index = copy := by
  match index with
  | 0 => rfl
  | 1 => rfl

@[simp] theorem Flash.copy_store_other (flash : Flash Data) (copy : Copy Data) (index : Fin 2) :
    (flash.store copy index).copy (index + 1) = flash.copy (index + 1) := by
  match index with
  | 0 => rfl
  | 1 => rfl

@[simp] theorem Flash.store_copy : flash.store (flash.copy index) index = flash := by
  match index with
  | 0 => rfl
  | 1 => rfl

theorem other_other (index : Fin 2) : index + 1 + 1 = index := by
  match index with
  | 0 => rfl
  | 1 => rfl

variable {ram : Ram Data}

theorem Ram.Knows.envIdx (knows : ram.Knows (some (index, env))) : ram.envIdx = index + 1 := by
  have valid := knows.1
  match index with
  | 0 =>
    rw [Ram.envIdx, valid]
    rfl
  | 1 =>
    rw [Ram.envIdx, valid]
    rfl

theorem Flash.Latest.spoil (holds : flash.Latest crc32 latest) (knows : ram.Knows latest)
    (spoiled : Copy.Spoiled crc32 left) :
    (flash.store left ram.envIdx).Latest crc32 latest := by
  cases holds with
  | empty primary redundant =>
    have index : ram.envIdx = 1 := by
      rw [Ram.envIdx, show ram.envValid = 1 from knows]
      rfl
    rw [index]
    exact .empty primary spoiled
  | newest index env valid behind =>
    rw [knows.envIdx]
    refine .newest index env ?_ fun other validOther => ?_
    · have kept := Flash.copy_store_other flash left (index + 1)
      rw [other_other] at kept
      rw [kept, valid]
    · rw [Flash.copy_store] at validOther
      cases spoiled.symm.trans validOther

theorem Flash.Latest.write (holds : flash.Latest crc32 latest) (knows : ram.Knows latest)
    (data : Data) :
    (flash.store (some ⟨crc32 data, ram.envFlags + 1, data⟩) ram.envIdx).Latest crc32
      (some (ram.envIdx, ⟨crc32 data, ram.envFlags + 1, data⟩)) := by
  refine .newest _ _ ?_ fun other valid => ?_
  · rw [Flash.copy_store]
    simp [Copy.valid]
  · rw [Flash.copy_store_other] at valid
    cases holds with
    | empty primary redundant =>
      have index : ram.envIdx = 1 := by
        rw [Ram.envIdx, show ram.envValid = 1 from knows]
        rfl
      rw [index] at valid
      cases primary.symm.trans valid
    | newest index env validEnv behind =>
      rw [knows.envIdx, other_other, validEnv] at valid
      cases valid
      change ram.envFlags + 1 = _
      rw [knows.2]

theorem Ram.knows_written (knows : ram.Knows latest) (env : EnvT Data) (environment : Option Data) :
    (⟨if ram.envValid = 2 then 1 else 2, env.flags, environment⟩ : Ram Data).Knows
      (some (ram.envIdx, env)) := by
  refine ⟨?_, rfl⟩
  match latest with
  | none =>
    have first : ram.envValid = 1 := knows
    rw [Ram.envIdx, first]
    rfl
  | some (0, _) =>
    rw [Ram.envIdx, knows.1]
    rfl
  | some (1, _) =>
    rw [Ram.envIdx, knows.1]
    rfl

/-! ## Histories -/

def Board.Holds (crc32 : Data → UInt32) (board : Board Data) (stored : Option Data) : Prop :=
  ∃ latest, board.flash.Latest crc32 latest ∧ (∀ ram, board.ram = some ram → ram.Knows latest) ∧
    ∀ data, stored = some data → ∃ index env, latest = some (index, env) ∧ env.data = data

variable {stored : Option Data}

theorem Board.Holds.boot {board : Board Data} (holds : board.Holds crc32 stored) :
    (board.next crc32 .boot).Holds crc32 stored := by
  obtain ⟨latest, flash, -, value⟩ := holds
  refine ⟨latest, flash, fun ram running => ?_, value⟩
  cases running
  exact flash.boot_knows.1

section

variable {flash : Flash Data} {ram : Ram Data} {stored : Option Data}

section

variable (holds : Board.Holds crc32 ⟨flash, some ram⟩ stored)
include holds

theorem Board.Holds.cut (admissible : left = flash.copy ram.envIdx ∨ Copy.Spoiled crc32 left) :
    Board.Holds crc32 ⟨flash.store left ram.envIdx, none⟩ stored := by
  obtain ⟨latest, newest, knows, value⟩ := holds
  refine ⟨latest, ?_, fun ram running => (by cases running), value⟩
  rcases admissible with same | spoiled
  · rw [same, Flash.store_copy]
    exact newest
  · exact newest.spoil (knows ram rfl) spoiled

theorem Board.Holds.written (data : Data) : Board.Holds crc32
      ⟨flash.store (some ⟨crc32 data, ram.envFlags + 1, data⟩) ram.envIdx, none⟩ (some data) := by
  obtain ⟨latest, newest, knows, -⟩ := holds
  refine ⟨_, newest.write (knows ram rfl) data, fun ram running => (by cases running),
    fun other same => ?_⟩
  cases same
  exact ⟨_, _, rfl, rfl⟩

theorem Board.Holds.completed (data : Data) :
    Board.Holds crc32 ⟨flash.store (some ⟨crc32 data, ram.envFlags + 1, data⟩) ram.envIdx,
        some ⟨if ram.envValid = 2 then 1 else 2, ram.envFlags + 1, ram.environment⟩⟩
      (some data) := by
  obtain ⟨latest, newest, knows, -⟩ := holds
  refine ⟨_, newest.write (knows ram rfl) data, fun next running => ?_, fun other same => ?_⟩
  · cases running
    exact Ram.knows_written (knows ram rfl) ⟨crc32 data, ram.envFlags + 1, data⟩ ram.environment
  · cases same
    exact ⟨_, _, rfl, rfl⟩

end

end

theorem PowerStep.holds {board next : Board Data}
    (step : PowerStep crc32 board event next) (holds : board.Holds crc32 stored) :
    next.Holds crc32 (event.write stored) := by
  obtain ⟨admissible, rfl⟩ := step
  cases event with
  | boot => exact holds.boot
  | save exported first second =>
    obtain ⟨ram, running, ends⟩ := admissible
    obtain ⟨flash, power⟩ := board
    cases running
    cases exported with
    | none => exact holds
    | some data =>
      obtain ⟨erase, write⟩ := first
      cases erase with
      | fails left => exact ends.elim
      | unnoticed written => exact ends.elim
      | cut left => exact holds.cut ends
      | succeeds =>
        cases write with
        | fails left => exact ends.elim
        | cut left => exact holds.cut (.inr ends)
        | cutAtEnd => exact holds.written data
        | succeeds => exact holds.completed data

theorem PowerStep.run_holds
    (run : Run (PowerStep crc32) start events final) (holds : start.Holds crc32 stored) :
    final.Holds crc32 (events.foldl BoardEvent.write stored) := by
  induction run generalizing stored with
  | nil => exact holds
  | cons step _ induction => exact induction (step.holds holds)

theorem foldl_write_mem (events : List (BoardEvent Data)) (stored : Option Data)
    (saves : Saves Data)
    (agree : ∀ last, saves.completed = some last →
      ∃ data, stored = some data ∧ (data = last ∨ data ∈ saves.interrupted))
    (completed : (events.foldl Saves.record saves).completed = some last) :
    ∃ data, events.foldl BoardEvent.write stored = some data ∧
      (data = last ∨ data ∈ (events.foldl Saves.record saves).interrupted) := by
  induction events generalizing stored saves with
  | nil => exact agree last completed
  | cons event events induction =>
    refine induction (event.write stored) (saves.record event) ?_ completed
    intro last saved
    have earlier {data : Data} (same : saves.completed = some last) :
        ∃ value, stored = some value ∧ (value = last ∨ value ∈ data :: saves.interrupted) := by
      obtain ⟨value, holds, member⟩ := agree last same
      exact ⟨value, holds, member.imp_right (List.mem_cons_of_mem _)⟩
    cases event with
    | boot => exact agree last saved
    | save exported first second =>
      cases exported with
      | none => exact agree last saved
      | some data =>
        obtain ⟨erase, write⟩ := first
        cases erase with
        | fails left => exact agree last saved
        | unnoticed written => exact agree last saved
        | cut left => exact earlier saved
        | succeeds =>
          cases write with
          | fails left => exact agree last saved
          | cut left => exact earlier saved
          | cutAtEnd => exact ⟨data, rfl, .inr List.mem_cons_self⟩
          | succeeds =>
            cases saved
            exact ⟨last, rfl, .inl rfl⟩

/-- Every boot after the first completed save loads the environment of the last
completed save, or of a later one that power cut when it had come to its end. -/
theorem boot_loads_last_save {start final : Board Data} {events : List (BoardEvent Data)}
    (consecutive : start.flash.Consecutive crc32) (off : start.ram = none)
    (run : Run (PowerStep crc32) start (events ++ [.boot]) final) {last : Data}
    (completed : (savesOf events).completed = some last) :
    ∃ ram data, final.ram = some ram ∧ ram.environment = some data ∧
      lastWritten events = some data ∧
      (data = last ∨ data ∈ (savesOf events).interrupted) := by
  obtain ⟨latest, newest⟩ := consecutive.latest
  have initially : start.Holds crc32 none :=
    ⟨latest, newest, fun ram running => (by cases off.symm.trans running),
      fun data impossible => (by cases impossible)⟩
  obtain ⟨before, earlier, boots⟩ := run.split
  obtain ⟨value, holds, member⟩ := foldl_write_mem events none ⟨none, []⟩
    (fun last impossible => (by cases impossible)) completed
  obtain ⟨newer, flash, -, stored⟩ := PowerStep.run_holds earlier initially
  obtain ⟨index, env, rfl, rfl⟩ := stored value holds
  cases boots with
  | cons step rest =>
    cases rest with
    | nil =>
      obtain ⟨-, rfl⟩ := step
      exact ⟨boot crc32 before.flash, env.data, rfl, flash.boot_knows.2, holds, member⟩

/-- The serial wraps to 0, and power cuts the save after it. -/
theorem boot_loads_last_save_wrap :
    let start : Board UInt32 := ⟨⟨some ⟨7, 254, 7⟩, some ⟨8, 255, 8⟩⟩, none⟩
    let events : List (BoardEvent UInt32) := [.boot,
      .save (some 9) ⟨.succeeds, .succeeds⟩ ⟨.succeeds, .succeeds⟩,
      .save (some 10) ⟨.succeeds, .cut (some ⟨0, 255, 10⟩)⟩ ⟨.succeeds, .succeeds⟩]
    ∃ final, Run (PowerStep id) start (events ++ [.boot]) final ∧
      ∃ ram data, final.ram = some ram ∧ ram.environment = some data ∧
        lastWritten events = some data ∧ (data = 9 ∨ data ∈ (savesOf events).interrupted) := by
  intro start events
  have run : Run (PowerStep id) start (events ++ [.boot])
      ⟨⟨some ⟨9, 0, 9⟩, some ⟨0, 255, 10⟩⟩, some ⟨1, 0, some 9⟩⟩ := by
    apply @Run.cons _ _ _ _ ⟨start.flash, some ⟨2, 255, some 8⟩⟩
    · exact ⟨trivial, by decide⟩
    apply @Run.cons _ _ _ _ ⟨⟨some ⟨9, 0, 9⟩, some ⟨8, 255, 8⟩⟩, some ⟨1, 0, some 8⟩⟩
    · exact ⟨⟨_, rfl, trivial⟩, by decide⟩
    apply @Run.cons _ _ _ _ ⟨⟨some ⟨9, 0, 9⟩, some ⟨0, 255, 10⟩⟩, none⟩
    · exact ⟨⟨_, rfl, (by decide : Copy.valid id _ = none)⟩, by decide⟩
    apply @Run.cons _ _ _ _ ⟨⟨some ⟨9, 0, 9⟩, some ⟨0, 255, 10⟩⟩, some ⟨1, 0, some 9⟩⟩
    · exact ⟨trivial, by decide⟩
    exact Run.nil _
  have consecutive : start.flash.Consecutive id := by
    intro env1 env2 primary redundant
    cases primary
    cases redundant
    exact .inl (by decide)
  exact ⟨_, run, boot_loads_last_save consecutive rfl run rfl⟩

end UBootV210.Environment
