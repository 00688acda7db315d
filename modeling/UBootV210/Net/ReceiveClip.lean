import UBootV210.Net.Receive
import UBootV210.Net.DefragmentStep

/-! # Lengths of received data

The length that goes with a call of protocol code stays inside the frame or the
reassembled packet exactly if the length field of the UDP header does and a frame for
RARP is not shorter than its header. -/

namespace UBootV210.Net

open StaticBuffer

/-! ## The packet that completes a datagram -/

variable {hole : Nat} {defrag changed : Defrag}

variable {len : Int}

variable {ip : List UInt8}

def byteAfter (ip : List UInt8) (defrag : Defrag) (place : Nat) : UInt8 :=
  if 8 * offset8 ip ≤ place ∧ (place : Int) < 8 * offset8 ip + fragmentLen ip then
    ip.getD (ipHdrSize + (place - 8 * offset8 ip)) 0
  else
    defrag.pktBuff (ipHdrSize + place)

def totalAfter (ip : List UInt8) (defrag : Defrag) : Nat :=
  if moreFragments ip then defrag.totalLen else (8 * offset8 ip + fragmentLen ip).toNat

def udpLenAfter (ip : List UInt8) (defrag : Defrag) : Nat :=
  256 * (byteAfter ip defrag 4).toNat + (byteAfter ip defrag 5).toNat

variable {count : Nat}

/-- What a call that completes a packet does to the buffer. The descriptor that it may
change before it copies the fragment has no byte at the places 2 to 7 of a unit. -/
structure Completed (ip : List UInt8) (defrag changed : Defrag) (count : Nat) : Prop where
  count_eq : count = changed.totalLen + ipHdrSize
  totalLen : changed.totalLen = totalAfter ip defrag
  header : ∀ place, place < ipHdrSize → place ≠ 2 → place ≠ 3 →
    changed.pktBuff place = defrag.pktBuff place
  payload : ∀ place, 2 ≤ place % 8 →
    changed.pktBuff (ipHdrSize + place) = byteAfter ip defrag place

def regionEnd (frame : Frame) (defrag : Defrag) : Region → Nat
  | .frame => frame.len
  | .reassembled => defrag.totalLen + ipHdrSize

section

variable {config : NetConfig} {frame : Frame} {defrag changed : Defrag} {pointer : Nat}

section

variable {ip : List UInt8} (source : frame.inpkt.drop pointer = ip)
  (accepted : acceptsIp config ip len = true) (length : (pointer : Int) + len = frame.len)

include source accepted

include length

omit source accepted length in
theorem Completed.fields (completed : Completed ip defrag changed count) :
    ipP (slice changed.pktBuff 0 ipUdpHdrSize) = (defrag.pktBuff 9).toNat ∧
      udpLen (slice changed.pktBuff 0 ipUdpHdrSize) = udpLenAfter ip defrag := by
  constructor
  · rw [ipP, getD_slice (by decide), completed.header _ (by decide) (by decide) (by decide)]
  · rw [udpLen, ntohsAt, getD_slice (by decide), getD_slice (by decide), udpLenAfter]
    have first := completed.payload 4 (by decide)
    have second := completed.payload 5 (by decide)
    rw [← first, ← second]
    rfl

end

end

end UBootV210.Net
