import UBootV210.Foundation.CString

/-! # The XMODEM receiver of the SPL

An embedding of `xmodem.c` and of the functions of `board_init_f_spl.c` that it
is connected to. The functions that `xmInit` installs are called directly. Bytes
are copied into the frame through a bounds check. -/

namespace UBootV210.Spl

def XM_FRAME_SOH : UInt8 := 0x01
def XM_FRAME_EOT : UInt8 := 0x04
def XM_FRAME_ACK : UInt8 := 0x06
def XM_FRAME_NAK : UInt8 := 0x15
def XM_FRAME_CAN : UInt8 := 0x18
def XM_FRAME_NCG : UInt8 := 0x43
def XM_FRAME_UNKOWN : UInt8 := 0xff

def XMODEM_DATA_SIZE : Nat := 128
def XMODEM_SOH_FRAME_SIZE : Nat := XMODEM_DATA_SIZE + 5

def XM_NCG_RESEND_DLY : Int32 := 1000
def XM_SOH_RECV_TIMEOUT : Int32 := 1000

abbrev Frame := Vector UInt8 XMODEM_SOH_FRAME_SIZE

namespace Frame

-- The indices of `SOH_IDX`.
def kind (frame : Frame) : UInt8 := frame.get ⟨0, by decide⟩
def pktNum (frame : Frame) : UInt8 := frame.get ⟨1, by decide⟩
def pktNumA (frame : Frame) : UInt8 := frame.get ⟨2, by decide⟩
def datas (frame : Frame) : List UInt8 := (frame.toList.drop 3).take XMODEM_DATA_SIZE
def chksumHigh (frame : Frame) : UInt8 := frame.get ⟨131, by decide⟩
def chksumLow (frame : Frame) : UInt8 := frame.get ⟨132, by decide⟩

end Frame

def calcCrcByte (crc : UInt16) (byte : UInt8) : UInt16 :=
  let crc := (crc >>> 8) ||| (crc <<< 8)
  let crc := crc ^^^ byte.toUInt16
  let crc := crc ^^^ ((crc &&& 0xff) >>> 4)
  let crc := crc ^^^ (crc <<< 12)
  crc ^^^ ((crc &&& 0xff) <<< 5)

def calcCrc (data : List UInt8) : UInt16 := data.foldl calcCrcByte 0

def checkSohFrame (buff : Frame) (len : UInt8) : Bool :=
  if len.toNat < XMODEM_SOH_FRAME_SIZE then
    false
  else if buff.kind ≠ XM_FRAME_SOH then
    false
  else if buff.pktNum ^^^ buff.pktNumA ≠ 0xff then
    false
  else
    let crcCal := calcCrc buff.datas
    let pktCal := (buff.chksumHigh.toUInt16 <<< 8) ||| buff.chksumLow.toUInt16
    crcCal = pktCal

def UART_BUF_SIZE : Nat := 128

structure UartBuffer where
  bytes : List UInt8
  fits : bytes.length ≤ UART_BUF_SIZE

namespace UartBuffer

def empty : UartBuffer := ⟨[], by decide⟩

end UartBuffer

def uartBuff (buffer : UartBuffer) (c : UInt8) : UartBuffer :=
  if room : buffer.bytes.length < UART_BUF_SIZE then
    ⟨buffer.bytes ++ [c], by rw [List.length_append]; exact room⟩
  else
    buffer

inductive XmodemState
  | entry
  | waitTrans
  | transmit
  | exit
  | stop
  deriving DecidableEq, Repr

inductive Callback
  | entry
  | soh (data : UInt8) (buffer : List UInt8)
  | eot
  | can
  deriving DecidableEq, Repr

/-- The globals of a download, with the calls of `xmCallback` and the bytes given
to `putData` since they were last taken out. -/
structure Receiver where
  xmState : XmodemState
  timestampNcgSentPrev : Int32
  ncgSendRetryTimes : Int32
  timestampSohRecvPrev : Int32
  sohNakRetryTimes : Int32
  frameOffset : UInt8
  frame : Frame
  uart : UartBuffer
  callbacks : List Callback
  sent : List UInt8

namespace Receiver

def xmCallback (receiver : Receiver) (callback : Callback) : Receiver :=
  { receiver with callbacks := receiver.callbacks ++ [callback] }

def putData (receiver : Receiver) (byte : UInt8) : Receiver :=
  { receiver with sent := receiver.sent ++ [byte] }

end Receiver

def copyBytes (frame : Frame) (offset : Nat) : List UInt8 → Exec Frame
  | [] => .ok frame
  | byte :: bytes =>
      if inside : offset < XMODEM_SOH_FRAME_SIZE then
        copyBytes (frame.set offset byte inside) (offset + 1) bytes
      else
        .error .outOfBounds

/-- `xmGetData`, which ignores the requested length, and the addition to
`frame_offset` that follows it. -/
def getData (receiver : Receiver) : Exec Receiver :=
  (copyBytes receiver.frame receiver.frameOffset.toNat receiver.uart.bytes).map fun frame =>
    { receiver with
      frame := frame
      frameOffset := receiver.frameOffset + UInt8.ofNat receiver.uart.bytes.length
      uart := .empty }

def dealSohFrame (receiver : Receiver) : Exec (Bool × Receiver) := do
  let receiver ← getData receiver
  if checkSohFrame receiver.frame receiver.frameOffset then
    let receiver := receiver.xmCallback (.soh receiver.frame.pktNum receiver.frame.datas)
    return (true, { receiver with frameOffset := 0 })
  return (false, receiver)

def dealSohFrameTimeout (receiver : Receiver) : Receiver :=
  { receiver with frameOffset := 0 }

def dealExceptionFrame (receiver : Receiver) : Exec (UInt8 × Receiver) := do
  let receiver ← getData receiver
  if receiver.frameOffset = 1 then
    if receiver.frame.kind = XM_FRAME_EOT then
      return (XM_FRAME_EOT, { receiver.xmCallback .eot with frameOffset := 0 })
    else if receiver.frame.kind = XM_FRAME_CAN then
      return (XM_FRAME_CAN, { receiver.xmCallback .can with frameOffset := 0 })
    else
      return (XM_FRAME_UNKOWN, receiver)
  return (XM_FRAME_UNKOWN, receiver)

def acknowledge (timestamp : Int32) (receiver : Receiver) : Receiver :=
  { receiver.putData XM_FRAME_ACK with
    sohNakRetryTimes := 0
    timestampSohRecvPrev := timestamp
    xmState := .transmit }

def resendNcg (timestamp : Int32) (receiver : Receiver) : Receiver :=
  if timestamp - receiver.timestampNcgSentPrev ≥ XM_NCG_RESEND_DLY then
    let retries := receiver.ncgSendRetryTimes
    let receiver := { receiver with ncgSendRetryTimes := retries + 1 }
    if retries > 100 then
      { receiver with xmState := .exit }
    else
      { (dealSohFrameTimeout receiver).putData XM_FRAME_NCG with
        timestampNcgSentPrev := timestamp }
  else
    receiver

def resendNak (timestamp : Int32) (receiver : Receiver) : Receiver :=
  if timestamp - receiver.timestampSohRecvPrev ≥ XM_SOH_RECV_TIMEOUT then
    let receiver := dealSohFrameTimeout receiver
    let retries := receiver.sohNakRetryTimes
    let receiver := { receiver with sohNakRetryTimes := retries + 1 }
    if retries > 50 then
      { receiver with xmState := .exit }
    else
      { receiver.putData XM_FRAME_NAK with timestampSohRecvPrev := timestamp }
  else
    receiver

def xModemFSM (timestamp : Int32) (receiver : Receiver) : Exec Receiver :=
  match receiver.xmState with
  | .entry =>
      let receiver :=
        { receiver with
          ncgSendRetryTimes := 0
          timestampNcgSentPrev := 0
          sohNakRetryTimes := 0
          timestampSohRecvPrev := 0
          frameOffset := 0 }
      .ok { receiver.xmCallback .entry with xmState := .waitTrans }
  | .waitTrans => do
      let (accepted, receiver) ← dealSohFrame receiver
      return if accepted then acknowledge timestamp receiver else resendNcg timestamp receiver
  | .transmit => do
      let (kind, receiver) ← dealExceptionFrame receiver
      if kind = XM_FRAME_EOT then
        return { receiver with xmState := .exit }
      let (kind, receiver) ← dealExceptionFrame receiver
      if kind = XM_FRAME_CAN then
        return { receiver with xmState := .exit }
      let (accepted, receiver) ← dealSohFrame receiver
      return if accepted then acknowledge timestamp receiver else resendNak timestamp receiver
  | .exit => .ok { receiver with xmState := .stop }
  | .stop => .ok receiver

def xmInit (receiver : Receiver) : Receiver := { receiver with xmState := .stop }

def xmStart (receiver : Receiver) : Receiver := { receiver with xmState := .entry }

def doXmodemDownloadInit (receiver : Receiver) : Receiver := xmStart (xmInit receiver)

/-- The part of `menu` for a download: a received byte is buffered, then the
state machine is polled. -/
def menuDownload (timestamp : Int32) (recved : Option UInt8) (receiver : Receiver) :
    Exec Receiver :=
  xModemFSM timestamp
    { receiver with uart := recved.elim receiver.uart (uartBuff receiver.uart) }

end UBootV210.Spl
