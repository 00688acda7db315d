import UBootV210.Foundation.StaticBuffer

/-! # Reassembly of IP packets

An embedding of `__NetDefragment` and `NetDefragment` of `net/net.c`. A received
packet is given by its bytes from the IP header to the end of the frame. The
descriptors of the holes are kept in the packet buffer, behind the IP header, in
units of 8 bytes. -/

namespace UBootV210.Net

open StaticBuffer

/-- `CONFIG_NET_MAXDEFRAG` and the size of the NFS reply header. -/
def ipPktsize : Nat := 16384 + 100

def ipHdrSize : Nat := 20

def ipMaxudp : Nat := ipPktsize - ipHdrSize

def ntohsAt (packet : List UInt8) (offset : Nat) : Nat :=
  256 * (packet.getD offset 0).toNat + (packet.getD (offset + 1) 0).toNat

def ipLen (ip : List UInt8) : Nat := ntohsAt ip 2

def ipId (ip : List UInt8) : Nat := ntohsAt ip 4

def ipOff (ip : List UInt8) : Nat := ntohsAt ip 6

def offset8 (ip : List UInt8) : Nat := ipOff ip % 0x2000

def moreFragments (ip : List UInt8) : Bool := (ipOff ip).testBit 13

/-- The length of the payload; it is negative when the header says less than its
own size. -/
def fragmentLen (ip : List UInt8) : Int := ipLen ip - ipHdrSize

structure Defrag where
  pktBuff : Nat → UInt8
  firstHole : Nat
  totalLen : Nat

def Defrag.localId (defrag : Defrag) : Nat :=
  256 * (defrag.pktBuff 4).toNat + (defrag.pktBuff 5).toNat

def loadLastByte (buffer : Nat → UInt8) (hole : Nat) : Exec Nat :=
  loadHalf ipPktsize buffer (ipHdrSize + 8 * hole)

def loadNextHole (buffer : Nat → UInt8) (hole : Nat) : Exec Nat :=
  loadHalf ipPktsize buffer (ipHdrSize + 8 * hole + 2)

def loadPrevHole (buffer : Nat → UInt8) (hole : Nat) : Exec Nat :=
  loadHalf ipPktsize buffer (ipHdrSize + 8 * hole + 4)

def storeLastByte (buffer : Nat → UInt8) (hole value : Nat) : Exec (Nat → UInt8) :=
  storeHalf ipPktsize buffer (ipHdrSize + 8 * hole) value

def storeNextHole (buffer : Nat → UInt8) (hole value : Nat) : Exec (Nat → UInt8) :=
  storeHalf ipPktsize buffer (ipHdrSize + 8 * hole + 2) value

def storePrevHole (buffer : Nat → UInt8) (hole value : Nat) : Exec (Nat → UInt8) :=
  storeHalf ipPktsize buffer (ipHdrSize + 8 * hole + 4) value

def copyHole (buffer : Nat → UInt8) (newh hole : Nat) : Exec (Nat → UInt8) :=
  if ipHdrSize + 8 * hole + 8 ≤ ipPktsize then
    copyBytes ipPktsize buffer (ipHdrSize + 8 * newh) (slice buffer (ipHdrSize + 8 * hole) 8) 8
  else
    .error .outOfBounds

/-- "fragment extends too far"; the sum is compared as an unsigned number. -/
def extendsTooFar (ip : List UInt8) : Bool :=
  8 * offset8 ip + fragmentLen ip < 0 || ipMaxudp < 8 * offset8 ip + fragmentLen ip

def newDatagram (ip : List UInt8) (defrag : Defrag) : Bool :=
  defrag.totalLen == 0 || defrag.localId != ipId ip

def startDatagram (ip : List UInt8) (defrag : Defrag) : Exec Defrag :=
  if newDatagram ip defrag then do
    let buffer ← storeLastByte defrag.pktBuff 0 0xffff
    let buffer ← storeNextHole buffer 0 0
    let buffer ← storePrevHole buffer 0 0
    let buffer ← copyBytes ipPktsize buffer 0 ip ipHdrSize
    return ⟨buffer, 0, 0xffff⟩
  else
    .ok defrag

/-- There are no more descriptors in the buffer than it has units, so a walk that
takes more steps does not end. -/
def walkFuel : Nat := ipPktsize / 8 + 1

def findHole (buffer : Nat → UInt8) (start : Nat) : Nat → Nat → Exec (Option Nat)
  | 0, _ => .error .diverges
  | fuel + 1, hole => do
      let lastByte ← loadLastByte buffer hole
      if lastByte < start then
        let nextHole ← loadNextHole buffer hole
        if nextHole = 0 then return none
        findHole buffer start fuel nextHole
      else
        return some hole

/-- The fragment covers the hole: take it out of the list. The result says whether
it was the last one. -/
def removeHole (hole : Nat) (defrag : Defrag) : Exec (Defrag × Bool) := do
  let prevHole ← loadPrevHole defrag.pktBuff hole
  let nextHole ← loadNextHole defrag.pktBuff hole
  if prevHole = 0 then
    if nextHole = 0 then
      return (defrag, true)
    let buffer ← storePrevHole defrag.pktBuff nextHole 0
    return ({ defrag with pktBuff := buffer, firstHole := nextHole }, false)
  else if nextHole = 0 then
    let buffer ← storeNextHole defrag.pktBuff prevHole 0
    return ({ defrag with pktBuff := buffer }, false)
  else
    let buffer ← storePrevHole defrag.pktBuff nextHole prevHole
    let buffer ← storeNextHole buffer prevHole nextHole
    return ({ defrag with pktBuff := buffer }, false)

def linkNextHole (buffer : Nat → UInt8) (nextHole hole : Nat) : Exec (Nat → UInt8) :=
  if nextHole = 0 then .ok buffer else storePrevHole buffer nextHole hole

/-- The fragment covers the start of the hole: move its descriptor. -/
def moveHole (hole newh : Nat) (defrag : Defrag) : Exec Defrag := do
  let buffer ← copyHole defrag.pktBuff newh hole
  let nextHole ← loadNextHole buffer newh
  let buffer ← linkNextHole buffer nextHole newh
  let prevHole ← loadPrevHole buffer newh
  if prevHole = 0 then
    return { defrag with pktBuff := buffer, firstHole := newh }
  else
    let buffer ← storeNextHole buffer prevHole newh
    return { defrag with pktBuff := buffer }

/-- The fragment is in the middle of the hole: a second hole follows it. -/
def splitHole (hole newh start : Nat) (defrag : Defrag) : Exec Defrag := do
  let buffer ← copyHole defrag.pktBuff newh hole
  let buffer ← storeLastByte buffer hole start
  let buffer ← storeNextHole buffer hole newh
  let buffer ← storePrevHole buffer newh hole
  let nextHole ← loadNextHole buffer newh
  let buffer ← linkNextHole buffer nextHole newh
  return { defrag with pktBuff := buffer }

/-- Take a fragment out of the hole it meets. -/
def fixHoles (hole offset : Nat) (len : Int) (defrag : Defrag) : Exec (Defrag × Bool) := do
  let start := 8 * offset
  let lastByte ← loadLastByte defrag.pktBuff hole
  if lastByte ≤ start + len then
    if offset ≤ hole then
      removeHole hole defrag
    else
      let buffer ← storeLastByte defrag.pktBuff hole start
      return ({ defrag with pktBuff := buffer }, false)
  else
    -- `newh = thisfrag + (len / 8)`
    let newh := (offset + len.tdiv 8).toNat
    if offset ≤ hole then
      return (← moveHole hole newh defrag, false)
    else
      return (← splitHole hole newh start defrag, false)

def truncateHole (ip : List UInt8) (hole : Nat) (stop : Int) (defrag : Defrag) : Exec Defrag :=
  if moreFragments ip then
    .ok defrag
  else do
    let buffer ← storeLastByte defrag.pktBuff hole stop.toNat
    return { defrag with pktBuff := buffer, totalLen := stop.toNat }

def placeFragment (ip : List UInt8) (hole : Nat) (defrag : Defrag) :
    Exec (Defrag × Option Nat) := do
  let start := 8 * offset8 ip
  let len := fragmentLen ip
  let defrag ← truncateHole ip hole (start + len) defrag
  let (defrag, done) ← fixHoles hole (offset8 ip) len defrag
  -- the length is converted to a `size_t`
  let buffer ← copyBytes ipPktsize defrag.pktBuff (ipHdrSize + start) (ip.drop ipHdrSize)
    (len % 2 ^ 32).toNat
  if done then
    let ipLen := [UInt8.ofNat (defrag.totalLen / 256), UInt8.ofNat defrag.totalLen]
    let buffer ← copyBytes ipPktsize buffer 2 ipLen 2
    return ({ defrag with pktBuff := buffer }, some (defrag.totalLen + ipHdrSize))
  else
    return ({ defrag with pktBuff := buffer }, none)

/-- `__NetDefragment`; a packet that is complete is in the buffer, and the result
is its length. -/
def netDefragmentFragment (ip : List UInt8) (defrag : Defrag) : Exec (Defrag × Option Nat) :=
  if extendsTooFar ip then
    .ok (defrag, none)
  else do
    let defrag ← startDatagram ip defrag
    match ← findHole defrag.pktBuff (8 * offset8 ip) walkFuel defrag.firstHole with
    | none => return (defrag, none)
    | some hole =>
        if offset8 ip + (fragmentLen ip + 7).tdiv 8 ≤ hole then
          return (defrag, none)
        placeFragment ip hole defrag

end UBootV210.Net
