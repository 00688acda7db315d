import UBootV210.Net.Defragment

/-! # Received frames

An embedding of `NetReceive` of `net/net.c`, up to the calls of the code for the
protocols. The receive buffer may hold more bytes than were received. -/

namespace UBootV210.Net

open StaticBuffer

/-- A receive buffer and the number of bytes that the driver has put into it. -/
structure Frame where
  inpkt : List UInt8
  len : Nat
  received : len ≤ inpkt.length
  isInt : len < 2 ^ 31

/-- The addresses of the board, in the byte order of the machine. -/
structure NetConfig where
  netOurVLAN : Nat
  netOurNativeVLAN : Nat
  netOurIP : List UInt8

inductive Region
  | frame
  | reassembled
  deriving DecidableEq

/-- A call of the code for a protocol: the address of the data, counted from the
start of the region, and the length that goes with it. -/
inductive Call
  | arpReceive (pointer : Nat) (len : Int)
  | rarpReceive (pointer : Nat) (len : UInt32)
  | receiveIcmp (region : Region) (pointer : Nat) (len : Int)
  | udpPacketHandler (region : Region) (pointer : Nat) (dport : Nat) (sip : List UInt8)
      (sport : Nat) (len : UInt32)
  deriving DecidableEq

def ipUdpHdrSize : Nat := 28

def ipHlV (ip : List UInt8) : Nat := (ip.getD 0 0).toNat

def ipP (ip : List UInt8) : Nat := (ip.getD 9 0).toNat

def ipDst (ip : List UInt8) : List UInt8 := (ip.drop 16).take 4

def udpLen (ip : List UInt8) : Nat := ntohsAt ip 24

/-- The sum of a number of halfwords, with the carries added once more. -/
def netCksum (bytes : List UInt8) (count : Nat) : Nat :=
  let xsum := ((List.range count).map fun index =>
    (bytes.getD (2 * index) 0).toNat + 256 * (bytes.getD (2 * index + 1) 0).toNat).sum
  let xsum := xsum % 65536 + xsum / 65536
  (xsum % 65536 + xsum / 65536) % 65536

def netCksumOk (bytes : List UInt8) (count : Nat) : Bool :=
  (netCksum bytes count + 1) &&& 0xfffe = 0

/-- The checks of the IP header, with the number of bytes that follow the link
layer header. -/
def acceptsIp (config : NetConfig) (ip : List UInt8) (len : Int) : Bool :=
  -- the first comparison is one of unsigned numbers
  (len < 0 || (ipUdpHdrSize : Int) ≤ len) && (ipLen ip : Int) ≤ len &&
    ipHlV ip / 16 == 4 && ipHlV ip % 16 ≤ 5 && netCksumOk ip (ipHdrSize / 2) &&
    (config.netOurIP == [0, 0, 0, 0] || ipDst ip == config.netOurIP ||
      ipDst ip == [255, 255, 255, 255])

def exampleConfig : NetConfig := ⟨0xffff, 0xffff, [5, 6, 7, 8]⟩

def bootDefrag : Defrag := ⟨fun _ => 0, 0, 0⟩

theorem acceptsIp_len (accepted : acceptsIp config ip len = true) :
    (ipUdpHdrSize : Int) ≤ len ∧ (ipLen ip : Int) ≤ len := by
  simp only [acceptsIp, Bool.and_eq_true, Bool.or_eq_true, decide_eq_true_eq] at accepted
  omega

end UBootV210.Net
