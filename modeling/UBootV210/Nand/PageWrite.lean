import UBootV210.Foundation.CheckedMemory

/-! # Programming a page with the hardware ECC

The NAND controller as far as the two page writers use it, and the writers:
`nand_write_page_8bit` of the SPL, and `nand_write_page` of `nand_base.c` with
`nand_write_page_hwecc` and the hooks of `s5pv210_nand.c`. -/

namespace UBootV210.Nand

open CheckedMemory

/-! ## The controller -/

/-- The 8-bit code of a 512-byte message. The fourth parity register has three
more bytes above the last byte of the code. -/
structure EccUnit where
  code : Vector UInt8 512 → Vector UInt8 13
  upper : Vector UInt8 512 → UInt8 × UInt8 × UInt8

def bit (index : UInt32) : UInt32 := 1 <<< index

/-- The registers, what the encoder has seen since it was initialised, and the
chip: the address and the data it has latched, and the last page it programmed,
with its address cycles. -/
structure Controller where
  nfconf : UInt32
  nfcont : UInt32
  nfstat : UInt32
  nfeccconf : UInt32
  nfecccont : UInt32
  nfeccstat : UInt32
  message : List UInt8
  address : List UInt8
  pageRegister : List UInt8
  programmed : Option (List UInt8 × List UInt8)

namespace Controller

/-- Setting bit 2 initialises the main area encoder. -/
def writeNfecccont (value : UInt32) (controller : Controller) : Controller :=
  { controller with
    nfecccont := value
    message := if value &&& bit 2 ≠ 0 then [] else controller.message }

/-- Bits 24 and 25 are cleared by writing them as one. -/
def writeNfeccstat (value : UInt32) (controller : Controller) : Controller :=
  { controller with nfeccstat := controller.nfeccstat &&& ~~~(value &&& (bit 24 ||| bit 25)) }

def writeNfcmmd (command : UInt8) (controller : Controller) : Controller :=
  if command = 0x80 then
    { controller with address := [], pageRegister := [] }
  else if command = 0x10 then
    { controller with programmed := some (controller.address, controller.pageRegister) }
  else
    controller

def writeNfaddr (cycle : UInt8) (controller : Controller) : Controller :=
  { controller with address := controller.address ++ [cycle] }

def messageSize (controller : Controller) : Nat :=
  ((controller.nfeccconf >>> 16) &&& 0x3ff).toNat + 1

/-- While the main area is unlocked the encoder sees every byte on its way to the
chip; the byte that completes the message sets bit 25 of `NFECCSTAT`. -/
def writeNfdata (byte : UInt8) (controller : Controller) : Controller :=
  if controller.nfcont &&& bit 7 = 0 then
    { controller with
      pageRegister := controller.pageRegister ++ [byte]
      message := controller.message ++ [byte]
      nfeccstat :=
        if controller.message.length + 1 = controller.messageSize then
          controller.nfeccstat ||| bit 25
        else
          controller.nfeccstat }
  else
    { controller with pageRegister := controller.pageRegister ++ [byte] }

/-- The code of the message: bit 16 of `NFECCCONT` chooses the encoder, and
`NFECCCONF` a message of 512 bytes with 8-bit ECC. -/
def parity (unit : EccUnit) (controller : Controller) :
    Vector UInt8 13 × UInt8 × UInt8 × UInt8 :=
  if full : controller.message.length = 512 then
    if controller.nfeccconf = 0x1ff0003 ∧ controller.nfecccont &&& bit 16 ≠ 0 then
      let message := ⟨controller.message.toArray, by simpa using full⟩
      (unit.code message, unit.upper message)
    else
      (Vector.replicate 13 0, 0, 0, 0)
  else
    (Vector.replicate 13 0, 0, 0, 0)

def word (byte0 byte1 byte2 byte3 : UInt8) : UInt32 :=
  UInt32.ofNat (byte0.toNat + 256 * byte1.toNat + 65536 * byte2.toNat + 16777216 * byte3.toNat)

def nfeccprgecc0 (unit : EccUnit) (controller : Controller) : UInt32 :=
  let code := (controller.parity unit).1
  word code[0] code[1] code[2] code[3]

def nfeccprgecc1 (unit : EccUnit) (controller : Controller) : UInt32 :=
  let code := (controller.parity unit).1
  word code[4] code[5] code[6] code[7]

def nfeccprgecc2 (unit : EccUnit) (controller : Controller) : UInt32 :=
  let code := (controller.parity unit).1
  word code[8] code[9] code[10] code[11]

def nfeccprgecc3 (unit : EccUnit) (controller : Controller) : UInt32 :=
  let (code, upper) := controller.parity unit
  word code[12] upper.1 upper.2.1 upper.2.2

end Controller

/-- The thirteen bytes both drivers take from the parity registers. -/
def eccCode (nfeccprgecc0 nfeccprgecc1 nfeccprgecc2 nfeccprgecc3 : UInt32) : List UInt8 :=
  [(nfeccprgecc0 &&& 0xff).toUInt8, ((nfeccprgecc0 >>> 8) &&& 0xff).toUInt8,
    ((nfeccprgecc0 >>> 16) &&& 0xff).toUInt8,
    ((nfeccprgecc0 >>> 24) &&& 0xff).toUInt8,
    (nfeccprgecc1 &&& 0xff).toUInt8,
    ((nfeccprgecc1 >>> 8) &&& 0xff).toUInt8,
    ((nfeccprgecc1 >>> 16) &&& 0xff).toUInt8,
    ((nfeccprgecc1 >>> 24) &&& 0xff).toUInt8,
    (nfeccprgecc2 &&& 0xff).toUInt8,
    ((nfeccprgecc2 >>> 8) &&& 0xff).toUInt8,
    ((nfeccprgecc2 >>> 16) &&& 0xff).toUInt8,
    ((nfeccprgecc2 >>> 24) &&& 0xff).toUInt8,
    (nfeccprgecc3 &&& 0xff).toUInt8]

inductive EccMode
  | write
  | read
  deriving DecidableEq

def writeBytes {State : Type} (write : UInt8 → State → State) (buf : List UInt8) :
    Nat → Nat → State → Exec State
  | 0, _, state => .ok state
  | size + 1, index, state => do
      let byte ← load buf index
      writeBytes write buf size (index + 1) (write byte state)

/-- The loop over the ECC steps of a page: `hwctl`, the data of the step at
`buffer`, and its code stored at `index`. -/
def eccLoop {State : Type} (hwctl : State → State)
    (writeBuf : Nat → State → Exec State)
    (calculate : Nat → List UInt8 → State → Exec (List UInt8 × State))
    (eccsize eccbytes : Nat) :
    Nat → Nat → Nat → List UInt8 → State → Exec (List UInt8 × State)
  | 0, _, _, codes, state => .ok (codes, state)
  | eccsteps + 1, index, buffer, codes, state => do
      let state ← writeBuf buffer (hwctl state)
      let (codes, state) ← calculate index codes state
      eccLoop hwctl writeBuf calculate eccsize eccbytes eccsteps (index + eccbytes)
        (buffer + eccsize) codes state

/-! ## The SPL -/

namespace Spl

def pageSize : UInt32 := 2048

def oobSize : Nat := 64

def oobEccOffset : Nat := 12

def eccSize : Nat := 512

def eccBytes : Nat := 13

def nandSelectChip (controller : Controller) : Controller :=
  { controller with nfcont := controller.nfcont &&& ~~~bit 1 }

def nandDeselectChip (controller : Controller) : Controller :=
  { controller with nfcont := controller.nfcont ||| bit 1 }

def nandAddr (addr : UInt32) (controller : Controller) : Controller :=
  let col := addr % pageSize
  let row := addr / pageSize
  [col &&& 0xff, (col >>> 8) &&& 0xf, row &&& 0xff, (row >>> 8) &&& 0xff,
      (row >>> 16) &&& 0x07].foldl
    (fun controller cycle => controller.writeNfaddr cycle.toUInt8) controller

def nandWriteBuf (buf : List UInt8) (index size : Nat) (controller : Controller) :
    Exec Controller :=
  writeBytes Controller.writeNfdata buf size index controller

def nandInitHwecc8bit (mode : EccMode) (controller : Controller) : Controller :=
  let controller :=
    match mode with
    | .read =>
        let controller := controller.writeNfecccont (controller.nfecccont &&& ~~~bit 16)
        controller.writeNfeccstat (controller.nfeccstat ||| bit 24)
    | .write =>
        let controller := controller.writeNfecccont (controller.nfecccont ||| bit 16)
        controller.writeNfeccstat (controller.nfeccstat ||| bit 25)
  let controller := { controller with nfcont := controller.nfcont ||| bit 5 }
  let controller :=
    { controller with nfeccconf := ((UInt32.ofNat eccSize - 1) <<< 16) ||| 0x3 }
  let controller := controller.writeNfecccont (controller.nfecccont ||| bit 2)
  { controller with nfcont := controller.nfcont &&& ~~~bit 7 }

/-- `nand_calculate_ecc_8bit`: nothing but data changes the status bits, so the
loops that wait for them end at once or never. -/
def nandCalculateEcc8bit (unit : EccUnit) (mode : EccMode) (index : Nat) (eccCalc : List UInt8)
    (controller : Controller) : Exec (List UInt8 × Controller) :=
  let controller := { controller with nfcont := controller.nfcont ||| bit 7 }
  match mode with
  | .read =>
      if controller.nfeccstat &&& bit 24 = 0 then
        .error .diverges
      else
        .ok (eccCalc, controller)
  | .write =>
      if controller.nfeccstat &&& bit 25 = 0 then
        .error .diverges
      else do
        let eccCalc ← storeAll eccCalc index
          (eccCode (controller.nfeccprgecc0 unit) (controller.nfeccprgecc1 unit)
            (controller.nfeccprgecc2 unit) (controller.nfeccprgecc3 unit))
        .ok (eccCalc, controller)

def nandWritePage8bit (unit : EccUnit) (buf : List UInt8) (addr : UInt32)
    (controller : Controller) : Exec Controller :=
  if addr &&& (pageSize - 1) ≠ 0 then
    .ok controller
  else do
    let controller := nandSelectChip controller
    let controller := controller.writeNfcmmd 0x80
    let controller := nandAddr addr controller
    let eccsteps := pageSize.toNat / eccSize
    let oob := List.replicate oobSize 0xff
    let (oob, controller) ← eccLoop (nandInitHwecc8bit .write)
      (fun buffer => nandWriteBuf buf buffer eccSize)
      (fun index => nandCalculateEcc8bit unit .write (oobEccOffset + index))
      eccSize eccBytes eccsteps 0 0 oob controller
    let controller ← nandWriteBuf oob 0 oobSize controller
    let controller := controller.writeNfcmmd 0x10
    .ok (nandDeselectChip controller)

end Spl

/-! ## The driver -/

inductive Port
  | nfconf
  | nfcmmd
  | nfaddr
  | nfdata
  deriving DecidableEq

structure DriverState where
  controller : Controller
  ioAddrW : Port

structure NandChip where
  chipsize : UInt64
  writesize : Nat
  oobsize : Nat
  eccSize : Nat
  eccBytes : Nat
  eccSteps : Nat
  eccTotal : Nat
  eccpos : List Nat

def writeb (value : UInt8) (state : DriverState) : DriverState :=
  { state with
    controller :=
      match state.ioAddrW with
      | .nfconf => { state.controller with
          nfconf := (state.controller.nfconf &&& 0xffffff00) ||| value.toUInt32 }
      | .nfcmmd => state.controller.writeNfcmmd value
      | .nfaddr => state.controller.writeNfaddr value
      | .nfdata => state.controller.writeNfdata value }

structure Ctrl where
  change : Bool
  nce : Bool
  cle : Bool
  ale : Bool

def nandCmdNone : Int := -1

def s5pv210Hwcontrol (cmd : Int) (ctrl : Ctrl) (state : DriverState) : DriverState :=
  let state :=
    bif ctrl.change then
      { ioAddrW := bif ctrl.cle then .nfcmmd else bif ctrl.ale then .nfaddr else .nfconf
        controller :=
          { state.controller with
            nfcont :=
              bif ctrl.nce then
                state.controller.nfcont &&& ~~~bit 1
              else
                state.controller.nfcont ||| bit 1 } }
    else
      state
  if cmd ≠ nandCmdNone then
    writeb (UInt8.ofInt cmd) state
  else
    { state with ioAddrW := .nfdata }

inductive NandCommand
  | read0
  | rndout
  | pageprog
  | readoob
  | erase1
  | status
  | seqin
  | rndin
  | erase2
  | reset
  deriving DecidableEq

def NandCommand.code : NandCommand → Int
  | .read0 => 0
  | .rndout => 5
  | .pageprog => 0x10
  | .readoob => 0x50
  | .erase1 => 0x60
  | .status => 0x70
  | .seqin => 0x80
  | .rndin => 0x85
  | .erase2 => 0xd0
  | .reset => 0xff

def startCommand (start : Int) (state : DriverState) : DriverState :=
  s5pv210Hwcontrol nandCmdNone ⟨true, true, false, false⟩
    (s5pv210Hwcontrol start ⟨true, true, true, false⟩ state)

/-- `nand_command_lp` for an 8-bit chip with a ready line. The waits have no effect
here. -/
def nandCommandLp (chip : NandChip) (command : NandCommand) (column pageAddr : Int)
    (state : DriverState) : DriverState :=
  let column := if command = .readoob then column + chip.writesize else column
  let command := if command = .readoob then .read0 else command
  let state := s5pv210Hwcontrol command.code ⟨true, true, true, false⟩ state
  let state :=
    if column ≠ -1 then
      s5pv210Hwcontrol (column >>> (8 : Nat)) ⟨false, true, false, true⟩
        (s5pv210Hwcontrol column ⟨true, true, false, true⟩ state)
    else
      state
  let state :=
    if pageAddr ≠ -1 then
      let state := s5pv210Hwcontrol pageAddr ⟨column = -1, true, false, true⟩ state
      let state := s5pv210Hwcontrol (pageAddr >>> (8 : Nat)) ⟨false, true, false, true⟩ state
      if 0x8000000 < chip.chipsize then
        s5pv210Hwcontrol (pageAddr >>> (16 : Nat)) ⟨false, true, false, true⟩ state
      else
        state
    else
      state
  let state := s5pv210Hwcontrol nandCmdNone ⟨true, true, false, false⟩ state
  match command with
  | .rndout => startCommand 0xe0 state
  | .read0 => startCommand 0x30 state
  | _ => state

def nandWriteBuf (buf : List UInt8) (index len : Nat) (state : DriverState) : Exec DriverState :=
  writeBytes writeb buf len index state

def s5pv210NandEnableHwecc (mode : EccMode) (state : DriverState) : DriverState :=
  let controller := state.controller
  let controller := { controller with nfconf := controller.nfconf ||| (bit 23 ||| bit 24) }
  let controller :=
    match mode with
    | .read => controller
    | .write =>
        let controller := controller.writeNfecccont (controller.nfecccont ||| bit 16)
        controller.writeNfeccstat (controller.nfeccstat ||| bit 25)
  let controller := { controller with nfcont := controller.nfcont ||| bit 5 }
  let controller := { controller with nfeccconf := 0x1ff0000 ||| 0x3 }
  let controller :=
    { controller with nfstat := controller.nfstat ||| bit 4 ||| bit 5 }
  let controller := controller.writeNfecccont (controller.nfecccont ||| bit 2)
  let controller := { controller with nfcont := controller.nfcont &&& ~~~bit 7 }
  { state with controller := controller }

/-- `s5pv210_nand_calculate_ecc`, which does not wait for the encoder. -/
def s5pv210NandCalculateEcc (unit : EccUnit) (index : Nat) (eccCode : List UInt8)
    (state : DriverState) : Exec (List UInt8 × DriverState) := do
  let controller := { state.controller with nfcont := state.controller.nfcont ||| bit 7 }
  let eccCode ← storeAll eccCode index
    (Nand.eccCode (controller.nfeccprgecc0 unit) (controller.nfeccprgecc1 unit)
      (controller.nfeccprgecc2 unit) (controller.nfeccprgecc3 unit))
  .ok (eccCode, { state with controller := controller })

/-- The loop that copies the codes to their places: `oob[eccpos[i]] = ecc_calc[i]`. -/
def placeCodes (eccpos : List Nat) (eccCalc : List UInt8) :
    Nat → Nat → List UInt8 → Exec (List UInt8)
  | 0, _, oob => .ok oob
  | count + 1, index, oob => do
      let position ← load eccpos index
      let code ← load eccCalc index
      let oob ← store oob position code
      placeCodes eccpos eccCalc count (index + 1) oob

def nandWritePageHwecc (unit : EccUnit) (chip : NandChip) (buf eccCalc oobPoi : List UInt8)
    (state : DriverState) : Exec DriverState := do
  let (eccCalc, state) ← eccLoop (s5pv210NandEnableHwecc .write)
    (fun buffer => nandWriteBuf buf buffer chip.eccSize)
    (s5pv210NandCalculateEcc unit)
    chip.eccSize chip.eccBytes chip.eccSteps 0 0 eccCalc state
  let oobPoi ← placeCodes chip.eccpos eccCalc chip.eccTotal 0 oobPoi
  nandWriteBuf oobPoi 0 chip.oobsize state

/-- `EIO`. -/
def ioError : Int := 5

/-- `nand_write_page` with neither raw nor cached programming; `waitfunc` is the
status that the chip shows after it. -/
def nandWritePage (unit : EccUnit) (chip : NandChip) (waitfunc : DriverState → UInt8)
    (buf eccCalc oobPoi : List UInt8) (page : Int) (state : DriverState) :
    Exec (Int × DriverState) := do
  let state := nandCommandLp chip .seqin 0 page state
  let state ← nandWritePageHwecc unit chip buf eccCalc oobPoi state
  let state := nandCommandLp chip .pageprog (-1) (-1) state
  if waitfunc state &&& 0x01 ≠ 0 then
    .ok (-ioError, state)
  else
    .ok (0, state)

def nandOob64 : List Nat :=
  [12, 13, 14, 15, 16, 17, 18, 19, 20, 21, 22, 23, 24, 25, 26, 27, 28, 29, 30, 31,
    32, 33, 34, 35, 36, 37, 38, 39, 40, 41,
    42, 43, 44, 45, 46, 47, 48, 49, 50, 51,
    52, 53, 54, 55, 56, 57, 58, 59, 60, 61,
    62, 63]

/-- The chip after `board_nand_init` and `nand_scan_tail`, for pages of 2048 bytes. -/
def s5pv210Chip (chipsize : UInt64) : NandChip where
  chipsize := chipsize
  writesize := 2048
  oobsize := 64
  eccSize := 512
  eccBytes := 13
  eccSteps := 2048 / 512
  eccTotal := 2048 / 512 * 13
  eccpos := nandOob64

end UBootV210.Nand
