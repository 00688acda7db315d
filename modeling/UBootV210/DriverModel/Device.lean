import Mathlib.Logic.Function.Basic
import UBootV210.Foundation.CString

/-! # The device tree of the driver model

An embedding of `device_bind`, `device_probe`, `device_remove` and `device_unbind` of
`drivers/core/device.c` with the functions of `uclass.c` that they call. The callbacks of
the drivers and of the uclasses and the allocations can fail at every call; a callback
that is not there is one that returns 0. -/

namespace UBootV210.DriverModel

def EINVAL : Int := 22
def ENOMEM : Int := 12

/-- `struct device`, with `DM_FLAG_ACTIVATED` and the list at `child_head`. -/
structure Device where
  parent : Option Nat
  uclass : Nat
  activated : Bool
  children : List Nat
  deriving DecidableEq

/-- The devices that are allocated, the list at `dev_head` of every uclass, and the next
device to be allocated. -/
structure World where
  devices : Nat → Option Device
  uclasses : Nat → Option (List Nat)
  next : Nat

/-- What can fail. The uclass and the driver are called again, or for another reason, when
an operation has failed and is taken back. -/
inductive Callback
  | uclassAdd
  | allocDevice
  | postBind
  | bind
  | preUnbind (takesBack : Bool)
  | unbind
  | allocPriv
  | allocPlatdata
  | allocUclassPriv
  | ofdataToPlatdata
  | probe
  | postProbe (takesBack : Bool)
  | preRemove
  | remove
  deriving DecidableEq

/-- What the callbacks return during one call; none of them is called twice for a device. -/
abbrev Answers := Callback → Nat → Int

namespace World

def device (world : World) (id : Nat) : Exec Device :=
  match world.devices id with
  | some device => .ok device
  | none => .error .outOfBounds

def setDevice (world : World) (id : Nat) (device : Device) : World :=
  { world with devices := Function.update world.devices id (some device) }

def freeDevice (world : World) (id : Nat) : World :=
  { world with devices := Function.update world.devices id none }

def devHead (world : World) (uclass : Nat) : Exec (List Nat) :=
  match world.uclasses uclass with
  | some list => .ok list
  | none => .error .outOfBounds

def setDevHead (world : World) (uclass : Nat) (list : List Nat) : World :=
  { world with uclasses := Function.update world.uclasses uclass (some list) }

def touch (world : World) (ids : List Nat) : Exec Unit :=
  if ids.all fun id => (world.devices id).isSome then .ok () else .error .outOfBounds

end World

def neighbours (list : List Nat) (id : Nat) : List Nat :=
  (list.takeWhile (· ≠ id)).getLast?.toList ++ ((list.dropWhile (· ≠ id)).drop 1).head?.toList

/-! ## `uclass.c` -/

section

variable (answers : Answers)

def uclassGet (uclass : Nat) (world : World) : Int × World :=
  match world.uclasses uclass with
  | some _ => (0, world)
  | none =>
      if answers .uclassAdd uclass ≠ 0 then
        (answers .uclassAdd uclass, world)
      else
        (0, world.setDevHead uclass [])

def uclassBindDevice (id uclass : Nat) (world : World) : Exec (Int × World) := do
  let list ← world.devHead uclass
  world.touch list.getLast?.toList
  if answers .postBind id ≠ 0 then
    world.touch (neighbours (list ++ [id]) id)
    return (answers .postBind id, world.setDevHead uclass ((list ++ [id]).erase id))
  return (0, world.setDevHead uclass (list ++ [id]))

def uclassUnbindDevice (takesBack : Bool) (id : Nat) (world : World) : Exec (Int × World) := do
  let device ← world.device id
  let list ← world.devHead device.uclass
  if answers (.preUnbind takesBack) id ≠ 0 then
    return (answers (.preUnbind takesBack) id, world)
  world.touch (neighbours list id)
  return (0, world.setDevHead device.uclass (list.erase id))

/-! ## `device.c` -/

def addSibling (id : Nat) (parent : Option Nat) (world : World) : Exec World :=
  match parent with
  | none => .ok world
  | some parent => do
      let device ← world.device parent
      return world.setDevice parent { device with children := device.children ++ [id] }

def delSibling (id : Nat) (parent : Option Nat) (world : World) : Exec World :=
  match parent with
  | none => .ok world
  | some parent => do
      let device ← world.device parent
      return world.setDevice parent { device with children := device.children.erase id }

def failBind (ret : Int) (id : Nat) (parent : Option Nat) (world : World) :
    Exec (Int × World) := do
  let world ← delSibling id parent world
  return (ret, world.freeDevice id)

def deviceBind (parent : Option Nat) (uclass : Nat) (named : Bool) (world : World) :
    Exec (Int × World) := do
  if !named then
    return (-EINVAL, world)
  let (ret, world) := uclassGet answers uclass world
  if ret ≠ 0 then
    return (ret, world)
  if answers .allocDevice world.next ≠ 0 then
    return (-ENOMEM, world)
  let id := world.next
  let world := { world with next := id + 1 }.setDevice id ⟨parent, uclass, false, []⟩
  let world ← addSibling id parent world
  let (ret, world) ← uclassBindDevice answers id uclass world
  if ret ≠ 0 then
    failBind ret id parent world
  else if answers .bind id ≠ 0 then
    -- A device that the uclass keeps is freed all the same.
    let (_, world) ← uclassUnbindDevice answers true id world
    failBind (answers .bind id) id parent world
  else
    return (0, world)

def deviceChldUnbind (deviceUnbind : Nat → World → Exec (Int × World)) :
    List Nat → Int → World → Exec (Int × World)
  | [], saved, world => .ok (saved, world)
  | child :: children, saved, world => do
      let (ret, world) ← deviceUnbind child world
      deviceChldUnbind deviceUnbind children (if ret ≠ 0 ∧ saved = 0 then ret else saved) world

def deviceUnbind : Nat → Nat → World → Exec (Int × World)
  | 0, _, _ => .error .diverges
  | fuel + 1, id, world => do
      let device ← world.device id
      if device.activated then
        return (-EINVAL, world)
      if answers .unbind id ≠ 0 then
        return (answers .unbind id, world)
      let (ret, world) ← deviceChldUnbind (deviceUnbind fuel) device.children 0 world
      if ret ≠ 0 then
        return (ret, world)
      let (ret, world) ← uclassUnbindDevice answers false id world
      if ret ≠ 0 then
        return (ret, world)
      let world ← delSibling id device.parent world
      return (0, world.freeDevice id)

def deviceChldRemove (deviceRemove : Nat → World → Exec (Int × World)) :
    List Nat → World → Exec (Int × World)
  | [], world => .ok (0, world)
  | child :: children, world => do
      let (ret, world) ← deviceRemove child world
      if ret ≠ 0 then
        return (ret, world)
      deviceChldRemove deviceRemove children world

-- On the error path the result of `post_probe` takes the place of the error.
def deviceRemove : Nat → Nat → World → Exec (Int × World)
  | 0, _, _ => .error .diverges
  | fuel + 1, id, world => do
      let device ← world.device id
      if !device.activated then
        return (0, world)
      if answers .preRemove id ≠ 0 then
        return (answers .preRemove id, world)
      let (ret, world) ← deviceChldRemove (deviceRemove fuel) device.children world
      if ret ≠ 0 then
        return (answers (.postProbe true) id, world)
      if answers .remove id ≠ 0 then
        return (answers (.postProbe true) id, world)
      let device ← world.device id
      return (0, world.setDevice id { device with activated := false })

def probeParent (deviceProbe : Nat → World → Exec (Int × World)) (parent : Option Nat)
    (world : World) : Exec (Int × World) :=
  match parent with
  | none => .ok (0, world)
  | some parent => deviceProbe parent world

def deviceProbe : Nat → Nat → World → Exec (Int × World)
  | 0, _, _ => .error .diverges
  | fuel + 1, id, world => do
      let device ← world.device id
      if device.activated then
        return (0, world)
      if answers .allocPriv id ≠ 0 ∨ answers .allocPlatdata id ≠ 0 ∨
          answers .allocUclassPriv id ≠ 0 then
        return (-ENOMEM, world)
      let (ret, world) ← probeParent (deviceProbe fuel) device.parent world
      if ret ≠ 0 then
        return (ret, world)
      if answers .ofdataToPlatdata id ≠ 0 then
        return (answers .ofdataToPlatdata id, world)
      if answers .probe id ≠ 0 then
        return (answers .probe id, world)
      let device ← world.device id
      let world := world.setDevice id { device with activated := true }
      if answers (.postProbe false) id ≠ 0 then
        let world := world.setDevice id { device with activated := false }
        let (_, world) ← deviceRemove answers (fuel + 1) id world
        return (answers (.postProbe false) id, world)
      return (0, world)

end

/-- A call, with `none` for a device that is NULL. -/
inductive Call
  | bind (parent : Option Nat) (uclass : Nat) (named : Bool)
  | probe (id : Option Nat)
  | remove (id : Option Nat)
  | unbind (id : Option Nat)

def Call.Names (call : Call) (world : World) : Prop :=
  match call with
  | .bind parent _ _ => ∀ id, parent = some id → world.devices id ≠ none
  | .probe device | .remove device | .unbind device =>
      ∀ id, device = some id → world.devices id ≠ none

def Call.run (call : Call) (answers : Answers) (world : World) : Exec (Int × World) :=
  match call with
  | .bind parent uclass named => deviceBind answers parent uclass named world
  | .probe none | .remove none | .unbind none => .ok (-EINVAL, world)
  | .probe (some id) => deviceProbe answers (world.next + 1) id world
  | .remove (some id) => deviceRemove answers (world.next + 1) id world
  | .unbind (some id) => deviceUnbind answers (world.next + 1) id world

structure Event where
  call : Call
  answers : Answers

def Step (world : World) (event : Event) (next : World) : Prop :=
  event.call.Names world ∧ ∃ ret, event.call.run event.answers world = .ok (ret, next)

def World.empty : World := ⟨fun _ => none, fun _ => none, 0⟩

end UBootV210.DriverModel
