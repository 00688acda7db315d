import UBootV210.Environment.EnvNand
import UBootV210.Environment.EnvNandPlacement

/-! # The environment as Linux sees it

An embedding of `fw_env.c` for NAND flash on a 32-bit target: `flash_read_buf`,
`flash_write_buf` and the choice of a copy in `fw_env_open`. An `off_t` is a signed
word of 32 bits there; a `loff_t` is wide enough and becomes an integer. -/

namespace UBootV210.Environment

open Nand

/-- The MTD device: `MEMGETBADBLOCK`, `MEMERASE`, and `read` and `write` at a position. -/
structure MtdFile where
  memGetBadBlock : Int → Int32
  memErase : Nand.Flash → Int → UInt32 → Int × Nand.Flash
  read : Nand.Flash → Int → UInt32 → List UInt8
  write : Nand.Flash → Int → List UInt8 → Int × Nand.Flash

structure EnvDev where
  devoff : UInt32
  envSize : UInt32
  eraseSize : UInt32
  envSectors : UInt32

def offT (word : UInt32) : Int := word.toInt32.toInt

section

variable (file : MtdFile) (dev : EnvDev)

def topOfRange : Int := offT ((dev.devoff / dev.eraseSize + dev.envSectors) * dev.eraseSize)

def blockFuel : Nat := 2 ^ 32 / dev.eraseSize.toNat + 1

-- The position of `lseek` is below the end of the range here, so that it is an `off_t`.
def flashReadLoop (flash : Nand.Flash) (count : UInt32) :
    Nat → Int → Int → UInt32 → UInt32 → List UInt8 → Exec (Int32 × List UInt8)
  | 0, _, _, _, _, _ => .error .diverges
  | fuel + 1, blockstart, blockSeek, readlen, processed, buf =>
      if processed < count then
        if file.memGetBadBlock blockstart < 0 then
          .ok (-1, buf)
        else if blockstart + blockSeek + readlen.toNat > topOfRange dev then
          .ok (-1, buf)
        else if file.memGetBadBlock blockstart ≠ 0 then
          flashReadLoop flash count fuel (blockstart + dev.eraseSize.toNat) blockSeek readlen
            processed buf
        else
          let bytes := file.read flash (blockstart + blockSeek) readlen
          let buf := storeAt buf processed.toNat bytes
          if bytes.length ≠ readlen.toNat then
            .ok (-1, buf)
          else
            let left := count - (processed + readlen)
            flashReadLoop flash count fuel (blockstart + dev.eraseSize.toNat) 0
              (if dev.eraseSize < left then dev.eraseSize else left) (processed + readlen) buf
      else
        .ok (processed.toInt32, buf)

def flashReadBuf (flash : Nand.Flash) (buf : List UInt8) (count offset : UInt32) :
    Exec (Int32 × List UInt8) :=
  let blockstart := offset / dev.eraseSize * dev.eraseSize
  let blockSeek := offset - blockstart
  let room := dev.eraseSize - blockSeek
  flashReadLoop file dev flash count (blockFuel dev) blockstart.toNat (offT blockSeek)
    (if room < count then room else count) 0 buf

def flashWriteLoop (data : List UInt8) (writeTotal : UInt32) :
    Nat → Int → UInt32 → Nand.Flash → Exec (Int32 × Nand.Flash)
  | 0, _, _, _ => .error .diverges
  | fuel + 1, blockstart, processed, flash =>
      if processed < writeTotal then
        if file.memGetBadBlock blockstart < 0 then
          .ok (file.memGetBadBlock blockstart, flash)
        else if blockstart + dev.eraseSize.toNat > topOfRange dev then
          .ok (-1, flash)
        else if file.memGetBadBlock blockstart ≠ 0 then
          flashWriteLoop data writeTotal fuel (blockstart + dev.eraseSize.toNat) processed flash
        else
          let erase := file.memErase flash blockstart dev.eraseSize
          if erase.1 ≠ 0 then
            .ok (-1, erase.2)
          else
            let bytes := (data.drop processed.toNat).take dev.eraseSize.toNat
            let write := file.write erase.2 blockstart bytes
            if write.1 ≠ dev.eraseSize.toNat then
              .ok (-1, write.2)
            else
              flashWriteLoop data writeTotal fuel (blockstart + dev.eraseSize.toNat)
                (processed + dev.eraseSize) write.2
      else
        .ok (processed.toInt32, flash)

def flashWriteBuf (flash : Nand.Flash) (buf : List UInt8) (count offset : UInt32) :
    Exec (Int32 × Nand.Flash) := do
  let eraseOffset := offset / dev.eraseSize * dev.eraseSize
  let eraseLen := (dev.devoff / dev.eraseSize + dev.envSectors) * dev.eraseSize - eraseOffset
  let blockSeek := offset - eraseOffset
  let writeTotal := (blockSeek + count + dev.eraseSize - 1) / dev.eraseSize * dev.eraseSize
  if count < writeTotal then
    let (rc, data) ← flashReadBuf file dev flash (List.replicate eraseLen.toNat 0) writeTotal
      eraseOffset
    if rc.toUInt32 ≠ writeTotal then
      return (-1, flash)
    flashWriteLoop file dev (storeAt data blockSeek.toNat buf) writeTotal (blockFuel dev)
      (offT eraseOffset) 0 flash
  else
    flashWriteLoop file dev buf writeTotal (blockFuel dev) (offT eraseOffset) 0 flash

end

section

variable {Data : Type} (crc32 : Data → UInt32)

def fwNewerCopy (flag0 flag1 : UInt8) : Nat :=
  if flag0 = 255 ∧ flag1 = 0 then 1
  else if flag1 = 255 ∧ flag0 = 0 ∨ flag1 ≤ flag0 then 0
  else 1

/-- What `fw_env_open` makes of the two copies: `dev_current`, and the environment that
is used, `none` for the default one. -/
def fwEnvOpen (env0 env1 : EnvT Data) : Nat × Option Data :=
  let crc0Ok := crc32 env0.data = env0.crc
  let crc1Ok := crc32 env1.data = env1.crc
  if crc0Ok ∧ ¬ crc1Ok then (0, some env0.data)
  else if ¬ crc0Ok ∧ crc1Ok then (1, some env1.data)
  else if ¬ crc0Ok ∧ ¬ crc1Ok then (0, none)
  else if fwNewerCopy env0.flags env1.flags = 1 then (1, some env1.data)
  else (0, some env0.data)

theorem newerCopy_eq (flag0 flag1 : UInt8) :
    newerCopy flag0 flag1 = fwNewerCopy flag0 flag1 + 1 := by
  simp only [newerCopy, fwNewerCopy, ← UInt8.toNat_inj, UInt8.lt_iff_toNat_lt,
    UInt8.le_iff_toNat_le, UInt8.reduceToNat]
  split_ifs <;> omega

theorem fwNewerCopy_cases (flag0 flag1 : UInt8) :
    fwNewerCopy flag0 flag1 = 0 ∨ fwNewerCopy flag0 flag1 = 1 := by
  rw [fwNewerCopy]
  split_ifs <;> simp

/-- Both programs choose the same copy. -/
theorem fwEnvOpen_agrees : (envRelocateSpec crc32 ⟨some env0, some env1⟩ envInit).envValid =
        (fwEnvOpen crc32 env0 env1).1 + 1 ∧
      (envRelocateSpec crc32 ⟨some env0, some env1⟩ envInit).environment =
        (fwEnvOpen crc32 env0 env1).2 := by
  have valid : ∀ env : EnvT Data, Copy.valid crc32 (some env) =
      if crc32 env.data = env.crc then some env else none := by
    intro env
    simp [Copy.valid, Option.filter]
  rw [envRelocateSpec, valid, valid, fwEnvOpen]
  by_cases ok0 : crc32 env0.data = env0.crc <;> by_cases ok1 : crc32 env1.data = env1.crc
  · cases fwNewerCopy_cases env0.flags env1.flags with
    | inl first => simp [ok0, ok1, loadEnv, newerCopy_eq, first]
    | inr second => simp [ok0, ok1, loadEnv, newerCopy_eq, second]
  · simp [ok0, ok1, loadEnv]
  · simp [ok0, ok1, loadEnv]
  · simp [ok0, ok1, envInit]

end

end UBootV210.Environment
