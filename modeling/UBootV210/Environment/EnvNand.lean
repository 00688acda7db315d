import UBootV210.Foundation.Run

/-! # The redundant environment in NAND

An embedding of `env_nand.c` with `CONFIG_ENV_OFFSET_REDUND`: `saveenv` and
`erase_and_write_env`, `env_init` and `env_relocate_spec`. How an erase or a
write of a copy ends is part of the input. -/

namespace UBootV210.Environment

structure EnvT (Data : Type) where
  crc : UInt32
  flags : UInt8
  data : Data
  deriving DecidableEq

/-- What `readenv` finds at a location, `none` when it fails. -/
abbrev Copy (Data : Type) := Option (EnvT Data)

/-- The copies at `CONFIG_ENV_OFFSET` and at `CONFIG_ENV_OFFSET_REDUND`. -/
structure Flash (Data : Type) where
  primary : Copy Data
  redundant : Copy Data
  deriving DecidableEq

/-- The variables of the running program: the blocks that were given to
`env_import` stand for the environment they hold, `none` for the default one. -/
structure Ram (Data : Type) where
  envValid : Nat
  envFlags : UInt8
  environment : Option Data
  deriving DecidableEq

/-- When the erase of a block fails, `nand_erase_opts` goes on and returns 0; `written` is
what a write over such a copy leaves in it. -/
inductive EraseEnd (Data : Type)
  | succeeds
  | fails (left : Copy Data)
  | unnoticed (written : Copy Data)
  | cut (left : Copy Data)

/-- Power can also be lost when the last byte is written and nothing else is done. -/
inductive WriteEnd (Data : Type)
  | succeeds
  | fails (left : Copy Data)
  | cut (left : Copy Data)
  | cutAtEnd

/-- One call of `erase_and_write_env`. -/
structure Attempt (Data : Type) where
  erase : EraseEnd Data
  write : WriteEnd Data

section

variable {Data : Type}

def Flash.copy (flash : Flash Data) : Fin 2 → Copy Data
  | 0 => flash.primary
  | 1 => flash.redundant

def Flash.store (flash : Flash Data) (copy : Copy Data) : Fin 2 → Flash Data
  | 0 => { flash with primary := copy }
  | 1 => { flash with redundant := copy }

def Ram.envIdx (ram : Ram Data) : Fin 2 := if ram.envValid = 1 then 1 else 0

abbrev Ram.otherIdx (ram : Ram Data) : Fin 2 := ram.envIdx + 1

abbrev redundantIdx : Fin 2 := 1

def writeCopy (write : WriteEnd Data) (written : Copy Data) : Option Int × Copy Data :=
  match write with
  | .cut left => (none, left)
  | .cutAtEnd => (none, written)
  | .fails left => (some 1, left)
  | .succeeds => (some 0, written)

/-- What `erase_and_write_env` returns, `none` when power is lost, and what is in
the copy then. -/
def eraseAndWriteEnv (attempt : Attempt Data) (envNew : EnvT Data) : Option Int × Copy Data :=
  match attempt.erase with
  | .cut left => (none, left)
  | .fails left => (some 1, left)
  | .unnoticed written => writeCopy attempt.write written
  | .succeeds => writeCopy attempt.write (some envNew)

structure SaveResult (Data : Type) where
  ret : Option Int
  flash : Flash Data
  ram : Ram Data

variable (crc32 : Data → UInt32)

/-- `saveenv`; `exported` is the block that `hexport_r` made, `none` when it failed. -/
def saveenv (first second : Attempt Data) (exported : Option Data) (flash : Flash Data)
    (ram : Ram Data) : SaveResult Data :=
  match exported with
  | none => ⟨some 1, flash, ram⟩
  | some data =>
      let envNew : EnvT Data := ⟨crc32 data, ram.envFlags + 1, data⟩
      let ram := { ram with envFlags := ram.envFlags + 1 }
      let envIdx := ram.envIdx
      let (ret, copy) := eraseAndWriteEnv first envNew
      let flash := flash.store copy envIdx
      match ret with
      | none => ⟨none, flash, ram⟩
      | some ret =>
          if ret = 0 then
            ⟨some 0, flash, { ram with envValid := if ram.envValid = 2 then 1 else 2 }⟩
          else
            let (ret, copy) := eraseAndWriteEnv second envNew
            ⟨ret, flash.store copy (envIdx + 1), ram⟩

def Copy.valid (copy : Copy Data) : Option (EnvT Data) :=
  copy.filter fun env => crc32 env.data == env.crc

def newerCopy (flags1 flags2 : UInt8) : Nat :=
  if flags1 = 255 ∧ flags2 = 0 then 2
  else if flags2 = 255 ∧ flags1 = 0 then 1
  else if flags2 < flags1 then 1
  else if flags1 < flags2 then 2
  else 1

def loadEnv (envValid : Nat) (ep : EnvT Data) : Ram Data where
  envValid := envValid
  envFlags := ep.flags
  environment := some ep.data

def envRelocateSpec (flash : Flash Data) (ram : Ram Data) : Ram Data :=
  match Copy.valid crc32 flash.primary, Copy.valid crc32 flash.redundant with
  | none, none => { ram with environment := none }
  | some env1, none => loadEnv 1 env1
  | none, some env2 => loadEnv 2 env2
  | some env1, some env2 =>
      let envValid := newerCopy env1.flags env2.flags
      loadEnv envValid (if envValid = 1 then env1 else env2)

def envInit : Ram Data where
  envValid := 1
  envFlags := 0
  environment := none

def boot (flash : Flash Data) : Ram Data := envRelocateSpec crc32 flash envInit

structure Board (Data : Type) where
  flash : Flash Data
  ram : Option (Ram Data)
  deriving DecidableEq

inductive BoardEvent (Data : Type)
  | boot
  | save (exported : Option Data) (first second : Attempt Data)

def Board.next (board : Board Data) : BoardEvent Data → Board Data
  | .boot => ⟨board.flash, some (boot crc32 board.flash)⟩
  | .save exported first second =>
      match board.ram with
      | none => board
      | some ram =>
          let saved := saveenv crc32 first second exported board.flash ram
          ⟨saved.flash, saved.ret.map fun _ => saved.ram⟩

end

end UBootV210.Environment
