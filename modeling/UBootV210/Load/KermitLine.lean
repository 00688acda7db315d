import UBootV210.Foundation.Run
import UBootV210.Load.Kermit

/-! # A Kermit sender and the receiver on one line

The sender sends each packet until it is acknowledged. The line alters characters and
loses acknowledgements. -/

namespace UBootV210.Load

open StaticBuffer PrefixCopy

structure Decoder where
  quote : UInt8
  escape : Bool
  bytes : List UInt8

namespace Decoder

def feedChar (decoder : Decoder) (character : UInt8) : Decoder :=
  if decoder.escape then
    { decoder with escape := false, bytes := decoder.bytes ++ [ktrans character] }
  else if character = decoder.quote then { decoder with escape := true }
  else { decoder with bytes := decoder.bytes ++ [character] }

def feed (decoder : Decoder) (characters : List UInt8) : Decoder :=
  characters.foldl feedChar decoder

end Decoder

structure Packet where
  type : UInt8
  data : List UInt8
  deriving DecidableEq

def Packet.frame (packet : Packet) (position : Nat) : List UInt8 :=
  let body := [tochar (packet.data.length + 3), tochar (position % 64), packet.type] ++ packet.data
  [startChar] ++ body ++ [tochar (chk1 body), endChar]

def quoteOf (parameters : List UInt8) : UInt8 :=
  if 6 ≤ parameters.length then parameters.getD 5 0 else kEscape

def Decoder.take (decoder : Decoder) (packet : Packet) : Decoder :=
  if packet.type = dataType then decoder.feed packet.data
  else if packet.type = sendType then { decoder with quote := quoteOf packet.data }
  else decoder

/-- Control characters are sent behind the quote with a bit changed, and so is the quote
itself without the change. -/
inductive Encodes (quote : UInt8) : List UInt8 → List UInt8 → Prop
  | nil : Encodes quote [] []
  | plain {character : UInt8} {characters file : List UInt8} :
      character ≠ quote → Encodes quote characters file →
      Encodes quote (character :: characters) (character :: file)
  | control {byte : UInt8} {characters file : List UInt8} :
      byte &&& 0x7f < 0x20 ∨ byte &&& 0x7f = 0x7f → Encodes quote characters file →
      Encodes quote (quote :: (byte ^^^ 0x40) :: characters) (byte :: file)
  | quoted {byte : UInt8} {characters file : List UInt8} :
      byte &&& 0x7f = quote → Encodes quote characters file →
      Encodes quote (quote :: byte :: characters) (byte :: file)

/-- A file in packets. The parameters come first, and the transmission ends with the
packet of type B. -/
structure Transmission where
  file : List UInt8
  parameters : List UInt8
  middle : List Packet
  last : List UInt8
  ordinary : ∀ packet ∈ middle, packet.type ≠ sendType ∧ packet.type ≠ breakType
  quote_range : (33 ≤ quoteOf parameters ∧ quoteOf parameters ≤ 62) ∨
    (96 ≤ quoteOf parameters ∧ quoteOf parameters ≤ 126)
  encodes : Encodes (quoteOf parameters)
    ((middle.filter fun packet => packet.type = dataType).flatMap Packet.data) file

def Transmission.packets (transmission : Transmission) : List Packet :=
  ⟨sendType, transmission.parameters⟩ :: (transmission.middle ++ [⟨breakType, transmission.last⟩])

def Transmission.before (transmission : Transmission) (position : Nat) : Decoder :=
  (transmission.packets.take position).foldl Decoder.take ⟨kEscape, false, []⟩

/-- `current` is the packet that the sender sends, and `answered` says that a copy of it was
acknowledged. `seen` are the characters of data of the packet that is being received, and
`acked` says that the packet received last was accepted. -/
structure Line where
  receiver : Receiver
  current : Nat
  answered : Bool
  seen : List UInt8
  acked : Bool

inductive Event
  | character (character : UInt8)
  | next

namespace Line

variable (transmission : Transmission)

def read (character : UInt8) (line : Line) : Line :=
  { line with
    receiver := (kRecvChar character line.receiver).1
    answered := line.answered || (line.receiver.place = .eol && character = endChar)
    seen :=
      if line.receiver.place = .start then []
      else if line.receiver.place = .data then line.seen ++ [character]
      else line.seen
    acked :=
      if line.receiver.place = .eol ∧ character = endChar then true
      else if line.receiver.place = .start ∧ character = startChar then false
      else line.acked }

/-- Sequence numbers arrive as they were sent, and what passes the check is what was sent. -/
structure Detected (line : Line) (character : UInt8) : Prop where
  sequence : line.receiver.place = .sequence → character = tochar (line.current % 64)
  accepted : line.receiver.place = .eol → character = endChar →
    transmission.packets[line.current]? = some ⟨line.receiver.kState, line.seen⟩

/-- The sender goes on when the packet was acknowledged. -/
inductive Step : Line → Event → Line → Prop
  | character {line : Line} {character : UInt8} :
      line.Detected transmission character →
      Step line (.character character) (line.read character)
  | next {line : Line} :
      line.answered = true → line.current + 1 < transmission.packets.length →
      Step line .next { line with current := line.current + 1, answered := false, acked := false }

def begin (receiver : Receiver) : Line := ⟨kRecvStart receiver, 0, false, [], false⟩

/-- A packet whose length character is not printable comes after the sequence number of the
packet was received, or there is nothing to take back. When the sender goes on, no copy of
the packet has begun since the last one was accepted. -/
def Recoverable (line : Line) : Event → Prop
  | .character character =>
      line.receiver.place = .length → isControl character = true →
      line.receiver.lastN = (line.current % 64 : Nat) ∨
        (line.receiver.escape = line.receiver.escapeSaved ∧
          line.receiver.address = line.receiver.addressSaved)
  | .next => line.acked = true ∧ line.receiver.place = .start

end Line

end UBootV210.Load
