import UBootV210.MtdParts.Commands
import UBootV210.MtdParts.Generate
import UBootV210.MtdParts.Selection

/-! # The table of the partitions

An embedding of `parse_mtdids`, `parse_mtdparts`, `mtdparts_init` and the command `mtdparts`
of common/cmd_mtdparts.c. The selected partition and the environment variables that follow it
are left out. The variables `mtdids` and `mtdparts` can have any values when a command
starts. -/

namespace UBootV210.MtdParts

open Library

def mtdidsMaxlen : Nat := 128
def mtdpartsMaxlen : Nat := 512

/-- The lists `mtdids` and `devices`, the text in `last_ids` and the bytes of `last_parts`. -/
structure Table where
  mtdids : List MtdId
  devices : List MtdDevice
  lastIds : List UInt8
  lastParts : List UInt8
  deriving DecidableEq

structure Board where
  chips : Chips
  /-- `mtd->size` of the chips. -/
  sizes : UInt8 → UInt8 → UInt64
  mtdidsDefault : Option CString

namespace Table

def parts (table : Table) : List UInt8 := (CString.ofBytes table.lastParts).bytes

def devicesInit (table : Table) : Table :=
  { table with devices := [], lastParts := table.lastParts.set 0 0 }

def initial : Table := ⟨[], [], [], List.replicate mtdpartsMaxlen 0⟩

end Table

/-! ## `parse_mtdids` -/

def mtdDeviceValidate (board : Board) (type num : UInt8) : Option UInt64 :=
  (board.chips type num).map fun _ => board.sizes type num

/-- The loop. A chip that does not exist ends it without the list being emptied. -/
def readMtdids (board : Board) : Nat → List MtdId → List UInt8 → Exec (Bool × List MtdId)
  | 0, _, _ => .error .diverges
  | _ + 1, mtdids, [] => .ok (true, mtdids)
  | fuel + 1, mtdids, p =>
      match mtdIdParse p with
      | some (type, num, 61 :: p) =>
          match mtdDeviceValidate board type num with
          | none => .ok (false, mtdids)
          | some size =>
              if (idFind mtdids type num).isSome then .ok (false, [])
              else
                readMtdids board fuel
                  (mtdids ++ [⟨type, num, size, .ofBytes (p.takeWhile (· ≠ 44))⟩])
                  ((p.dropWhile (· ≠ 44)).drop 1)
      | _ => .ok (false, [])

def parseMtdids (board : Board) (ids : List UInt8) : Exec (Bool × List MtdId) :=
  if ids = [] then .ok (false, []) else readMtdids board (ids.length + 1) [] ids

/-! ## `parse_mtdparts` -/

/-- The loop over the devices, with `none` if it ends with an error. -/
def readDevices (chips : Chips) (mtdids : List MtdId) :
    Nat → List MtdDevice → List UInt8 → Exec (Option (List MtdDevice))
  | 0, _, _ => .error .diverges
  | _ + 1, devices, [] => .ok (some devices)
  | fuel + 1, devices, p => do
      match ← deviceParse chips mtdids devices p with
      | none => return none
      | some (dev, p) =>
          if (deviceFind devices dev.id.type dev.id.num).isSome then return none
          readDevices chips mtdids fuel (devices ++ [dev]) p

def parseMtdparts (chips : Chips) (mtdids : List MtdId) (mtdparts : List UInt8) :
    Exec (Int × List MtdDevice) :=
  if mtdparts.take 9 ≠ mtdpartsPrefix then .ok (1, [])
  else if mtdparts.drop 9 = [] then .ok (1, [])
  else do
    match ← readDevices chips mtdids (mtdparts.length + 1) [] (mtdparts.drop 9) with
    | none => return (1, [])
    | some devices => return (0, devices)

/-! ## `mtdparts_init` -/

def updateIds (board : Board) (ids : CString) (table : Table) : Exec (Bool × Bool × Table) :=
  if table.lastIds ≠ [] ∧ table.lastIds = ids.bytes then .ok (true, false, table)
  else do
    let (valid, mtdids) ← parseMtdids board ids.bytes
    if valid then return (true, true, { table with mtdids := mtdids, lastIds := ids.bytes })
    else return (false, true, { table with mtdids := mtdids, lastIds := [] }.devicesInit)

/-- The devices follow the variable. Devices that were made with other ids point to memory
that has been freed if they are kept. -/
def updateParts (board : Board) (parts : Option CString) (idsChanged : Bool) (table : Table) :
    Exec (Int × Table) :=
  match parts with
  | some parts =>
      if table.parts = [] ∨ table.parts ≠ parts.bytes ∨ idsChanged then do
        let (ret, devices) ← parseMtdparts board.chips table.mtdids parts.bytes
        let table := { table.devicesInit with devices := devices }
        if ret ≠ 0 then return (1, table)
        -- This `strncpy` leaves the bytes behind the NUL.
        return (0, { table with
          lastParts := parts.bytes ++ 0 :: table.lastParts.drop (parts.length + 1) })
      else
        .ok (0, table)
  | none =>
      if table.parts ≠ [] then .ok (0, table.devicesInit)
      else if idsChanged ∧ table.devices ≠ [] then .error .outOfBounds
      else .ok (0, table)

def mtdpartsInit (board : Board) (ids parts : Option CString) (table : Table) :
    Exec (Int × Table) :=
  match ids <|> board.mtdidsDefault with
  | none => .ok (1, table)
  | some ids =>
      if mtdidsMaxlen - 1 < ids.length then .ok (1, table)
      else if parts.any fun parts => mtdpartsMaxlen - 1 < parts.length then .ok (1, table)
      else do
        let (valid, idsChanged, table) ← updateIds board ids table
        if !valid then return (1, table)
        updateParts board parts idsChanged table

def generateSave (table : Table) : Exec Table := do
  let (_, buf) ← generateMtdparts table.devices table.lastParts 512
  return { table with lastParts := buf }

/-- `part_add` to a device that exists. -/
def partAdd (chips : Chips) (dev : MtdDevice) (part : PartInfo) : Option MtdDevice := do
  let part ← partValidate chips dev.id part
  partSortAdd dev part

def MtdDevice.isAt (dev : MtdDevice) (type num : UInt8) : Bool :=
  dev.id.type = type ∧ dev.id.num = num

/-- The devices with one more, or with the first partition of it in the one that exists. -/
def addDevice (chips : Chips) (devices : List MtdDevice) (dev : MtdDevice) :
    Exec (Option (List MtdDevice)) :=
  match deviceFind devices dev.id.type dev.id.num with
  | none => .ok (some (devices ++ [dev]))
  | some existing =>
      match dev.parts with
      | [] => .error .outOfBounds
      | part :: _ =>
          match partAdd chips existing part with
          | none => .ok none
          | some added =>
              .ok (some (devices.set (devices.findIdx (·.isAt dev.id.type dev.id.num)) added))

def addPartition (board : Board) (arguments : AddArguments) (table : Table) : Exec Table := do
  match ← addDescription table.mtdids arguments with
  | none => return table
  | some tmpbuf =>
      match ← deviceParse board.chips table.mtdids table.devices tmpbuf with
      | none => return table
      | some (dev, _) =>
          match ← addDevice board.chips table.devices dev with
          | none => return table
          | some devices => generateSave { table with devices := devices }

def findByNumber (devices : List MtdDevice) (id : List UInt8) : Option (Nat × Nat) :=
  match mtdIdParse id with
  | some (type, dnum, 44 :: first :: p) =>
      let (value, rest) := simpleStrtoul (first :: p) 0
      let pnum := UInt8.ofNat value
      if rest ≠ [] then none
      else
        match devices.findIdx? (·.isAt type dnum) with
        | none => none
        | some place =>
            if (devices[place]?.bind (mtdPartInfo · pnum.toNat)).isSome then
              some (place, pnum.toNat)
            else none
  | _ => none

/-- `find_dev_and_part`: the places of the device and of the partition. -/
def findDevAndPart (devices : List MtdDevice) (id : CString) : Option (Nat × Nat) :=
  match devices.findIdx? fun dev => dev.parts.any (·.name = id) with
  | some place =>
      some (place, (devices[place]?.map fun dev => dev.parts.findIdx (·.name = id)).getD 0)
  | none => findByNumber devices id.bytes

def partDel (devices : List MtdDevice) (place partPlace : Nat) : List MtdDevice :=
  match devices[place]? with
  | none => devices
  | some dev =>
      if dev.numParts = 1 then devices.eraseIdx place
      else
        devices.set place
          { dev with parts := dev.parts.eraseIdx partPlace, numParts := dev.numParts - 1 }

def deletePartition (id : CString) (table : Table) : Exec Table :=
  match findDevAndPart table.devices id with
  | none => .ok table
  | some (place, partPlace) =>
      generateSave { table with devices := partDel table.devices place partPlace }

inductive Request
  | list
  | delall
  | add (arguments : AddArguments)
  | del (id : CString)

structure Command where
  ids : Option CString
  parts : Option CString
  request : Request

def Command.run (command : Command) (board : Board) (table : Table) : Exec Table := do
  let (ret, table) ← mtdpartsInit board command.ids command.parts table
  match command.request with
  | .delall => return table.devicesInit
  | .list => return table
  | .add arguments => if ret ≠ 0 then return table else addPartition board arguments table
  | .del id => if ret ≠ 0 then return table else deletePartition id table

end UBootV210.MtdParts
