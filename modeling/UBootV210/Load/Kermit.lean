import UBootV210.Foundation.PrefixCopy

/-! # The Kermit receiver

Model of `k_recv` of common/cmd_load.c for a binary download. Each call of `getc` in the
source is a place in which the receiver waits for the next character. -/

namespace UBootV210.Load

open StaticBuffer

def startChar : UInt8 := 0x01

def etxChar : UInt8 := 0x03

def endChar : UInt8 := 0x0d

def kEscape : UInt8 := 0x23

def sendType : UInt8 := 83

def dataType : UInt8 := 68

def ackType : UInt8 := 89

def nackType : UInt8 := 78

def breakType : UInt8 := 66

def sendDataSize : Nat := 20

def tochar (value : Nat) : UInt8 := UInt8.ofNat (value + 32)

def untochar (character : UInt8) : Nat := (character - 32).toNat

def ktrans (character : UInt8) : UInt8 :=
  if character &&& 0x60 = 0x40 then character &&& ~~~0x40
  else if character &&& 0x7f = 0x3f then character ||| 0x40
  else character

inductive Place
  | start
  | length
  | sequence
  | type
  | lengthHigh
  | lengthLow
  | headerCheck
  | data
  | check
  | eol
  | finished
  | aborted
  deriving DecidableEq

/-- `address` is the distance of `os_data_addr` from `bin_start_address`, and `memory` is
what lies behind that address. -/
structure Receiver where
  place : Place
  sum : Nat
  length : Int
  lenHi : Nat
  n : Nat
  lastN : Int
  kState : UInt8
  kStateSaved : UInt8
  escape : Bool
  escapeSaved : Bool
  address : Nat
  addressSaved : Nat
  memory : Nat → UInt8
  sendParms : Nat → UInt8
  sendPtr : Nat
  hisEol : UInt8
  hisPadCount : Nat
  hisPadChar : UInt8
  hisQuote : UInt8

def osDataChar (character : UInt8) (receiver : Receiver) : Receiver :=
  { receiver with
    memory := putBytes receiver.memory receiver.address [character]
    address := receiver.address + 1 }

def kDataSave (receiver : Receiver) : Receiver :=
  { receiver with escapeSaved := receiver.escape, addressSaved := receiver.address }

def kDataRestore (receiver : Receiver) : Receiver :=
  { receiver with escape := receiver.escapeSaved, address := receiver.addressSaved }

def kDataChar (character : UInt8) (receiver : Receiver) : Receiver :=
  if receiver.escape then { osDataChar (ktrans character) receiver with escape := false }
  else if character = receiver.hisQuote then { receiver with escape := true }
  else osDataChar character receiver

/-- The pointer stays at the last place of the buffer. -/
def sendParmChar (character : UInt8) (receiver : Receiver) : Receiver :=
  { receiver with
    sendParms := putBytes receiver.sendParms receiver.sendPtr [character]
    sendPtr := if receiver.sendPtr + 1 ≥ sendDataSize then receiver.sendPtr
      else receiver.sendPtr + 1 }

def chk1 (buffer : List UInt8) : Nat :=
  let total := (buffer.map UInt8.toNat).sum
  (total + total / 64 % 4) % 64

/-- Bytes up to the first NUL, behind the padding. -/
def s1Sendpacket (packet : List UInt8) (receiver : Receiver) : List UInt8 :=
  List.replicate receiver.hisPadCount receiver.hisPadChar ++ packet.takeWhile (· ≠ 0)

def sendReply (type : UInt8) (n : Nat) (parms : List UInt8) (receiver : Receiver) : List UInt8 :=
  let body := [tochar (3 + parms.length), tochar n, type] ++ parms
  s1Sendpacket ([startChar] ++ body ++ [tochar (chk1 body), receiver.hisEol]) receiver

def sendAck (n : Nat) (receiver : Receiver) : List UInt8 := sendReply ackType n [] receiver

def sendNack (n : Nat) (receiver : Receiver) : List UInt8 := sendReply nackType n [] receiver

/-- What the receiver answers to each of the parameters, in their order. -/
def ourParms : List (List UInt8) :=
  [[tochar 94], [tochar 1], [tochar 0], [0x40], [tochar 13], [0x23], [78], [49], [78],
    [tochar 2, tochar 0, tochar 94, tochar 94]]

/-- A buffer that was filled loses its last character. -/
def sendParmCount (receiver : Receiver) : Nat :=
  if receiver.sendPtr = sendDataSize - 1 then receiver.sendPtr - 1 else receiver.sendPtr

def handleSendPacket (receiver : Receiver) : Receiver × List UInt8 :=
  let bytes := sendParmCount receiver
  let agreed := { receiver with
    hisPadCount := if 3 ≤ bytes then untochar (receiver.sendParms 2) else 0
    hisPadChar := if 4 ≤ bytes then ktrans (receiver.sendParms 3) else 0
    hisEol := if 5 ≤ bytes then UInt8.ofNat (untochar (receiver.sendParms 4)) else endChar
    hisQuote := if 6 ≤ bytes then receiver.sendParms 5 else kEscape }
  (agreed, sendReply ackType receiver.n (ourParms.take bytes).flatten agreed)

def isControl (character : UInt8) : Bool := character &&& 0xe0 = 0

def checkChar (sum : Nat) : UInt8 := tochar ((sum + sum / 64 % 4) % 64)

def awaitStart (receiver : Receiver) : Receiver := { receiver with place := .start, sendPtr := 0 }

def packetError (receiver : Receiver) : Receiver × List UInt8 :=
  let restored := kDataRestore { receiver with kState := receiver.kStateSaved }
  (awaitStart restored, sendNack restored.n restored)

/-- The loop over the data goes on while more than the check is to come. -/
def dataOrCheck (length : Int) : Place := if length > 1 then .data else .check

def receiveSequence (character : UInt8) (receiver : Receiver) : Receiver :=
  let n := untochar character
  let counted := { receiver with
    sum := receiver.sum + character.toNat, n := n, length := receiver.length - 1, place := .type }
  if (n : Int) = counted.lastN then kDataRestore { counted with kState := counted.kStateSaved }
  else kDataSave { counted with lastN := n, kStateSaved := counted.kState }

def receiveType (character : UInt8) (receiver : Receiver) : Receiver :=
  { receiver with
    sum := receiver.sum + character.toNat
    kState := character
    length := receiver.length - 1
    place := if receiver.length - 1 = -2 then .lengthHigh else dataOrCheck (receiver.length - 1) }

def countData (character : UInt8) (receiver : Receiver) : Receiver :=
  { receiver with
    sum := receiver.sum + character.toNat
    length := receiver.length - 1
    place := dataOrCheck (receiver.length - 1) }

def receiveData (character : UInt8) (receiver : Receiver) : Receiver :=
  if receiver.kState = dataType then kDataChar character (countData character receiver)
  else if receiver.kState = sendType then sendParmChar character (countData character receiver)
  else countData character receiver

def acceptPacket (receiver : Receiver) : Receiver × List UInt8 :=
  if receiver.kState = sendType then
    (awaitStart (handleSendPacket receiver).1, (handleSendPacket receiver).2)
  else
    (if receiver.kState = breakType then { receiver with place := .finished }
      else awaitStart receiver,
      sendAck receiver.n receiver)

def packetChar (character : UInt8) (receiver : Receiver) : Receiver × List UInt8 :=
  match receiver.place with
  | .length =>
      ({ receiver with
        sum := character.toNat, length := untochar character, place := .sequence }, [])
  | .sequence => (receiveSequence character receiver, [])
  | .type => (receiveType character receiver, [])
  | .lengthHigh =>
      ({ receiver with
        sum := receiver.sum + character.toNat, lenHi := untochar character
        place := .lengthLow }, [])
  | .lengthLow =>
      ({ receiver with
        sum := receiver.sum + character.toNat
        length := receiver.lenHi * 95 + untochar character, place := .headerCheck }, [])
  | .headerCheck =>
      if character ≠ checkChar receiver.sum then packetError receiver
      else ({ receiver with
        sum := receiver.sum + character.toNat, place := dataOrCheck receiver.length }, [])
  | .data => (receiveData character receiver, [])
  | .check =>
      if character ≠ checkChar receiver.sum then packetError receiver
      else ({ receiver with place := .eol }, [])
  | _ => (receiver, [])

def kRecvChar (character : UInt8) (receiver : Receiver) : Receiver × List UInt8 :=
  match receiver.place with
  | .start =>
      (if character = startChar then { receiver with place := .length }
        else if character = etxChar then { receiver with place := .aborted }
        else receiver, [])
  | .finished | .aborted => (receiver, [])
  | .eol => if character ≠ endChar then packetError receiver else acceptPacket receiver
  | _ => if isControl character then packetError receiver else packetChar character receiver

/-- The start of `k_recv`. The buffer of parameters and the variables of the last packet
have the values that they had before. -/
def kRecvStart (receiver : Receiver) : Receiver :=
  { receiver with
    place := .start
    n := 0
    lastN := -1
    kState := 0
    kStateSaved := 0
    escape := false
    escapeSaved := false
    address := 0
    addressSaved := 0
    sendPtr := 0
    hisEol := endChar
    hisPadCount := 0
    hisPadChar := 0
    hisQuote := kEscape }

end UBootV210.Load
