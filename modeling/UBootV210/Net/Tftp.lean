import UBootV210.Foundation.PrefixCopy
import UBootV210.Library.Vsprintf

/-! # The TFTP client

Model of net/tftp.c as it is configured for the board: without multicast, TFTPPUT,
TFTPSRV and the file size option. Messages on the console are left out. -/

namespace UBootV210.Net.Tftp

open StaticBuffer

def wellKnownPort : Nat := 69

def timeoutCountDefault : Nat := 10

def tftpBlockSize : Nat := 512

def tftpSequenceSize : Nat := 65536

inductive State
  | sendRrq
  | data
  | tooLarge
  | badMagic
  | oack
  | recvWrq
  | sendWrq
  deriving DecidableEq

/-- What the handlers say to the network loop. `startAgain` is a call of
`NetStartAgain`. -/
inductive NetState
  | goOn
  | startAgain
  | success
  | fail
  deriving DecidableEq

structure Options where
  filename : List UInt8
  timeoutMSecs : Nat
  blkSizeOption : Nat
  rrqTimeoutCountMax : Nat

/-- `memory` is what lies behind `load_addr`. -/
structure Client where
  remotePort : Nat
  ourPort : Nat
  timeoutCount : Nat
  timeoutCountMax : Nat
  block : Nat
  lastBlock : Nat
  blockWrap : Nat
  blockWrapOffset : Nat
  blkSize : Nat
  state : State
  bootFileXferSize : Nat
  memory : Nat → UInt8
  netState : NetState

inductive Packet
  | rrq (filename : List UInt8) (timeout blksize : Nat)
  | ack (block : Nat)
  | error (code : Nat) (message : String)

def storeBlock (block : Int) (src : List UInt8) (client : Client) : Client :=
  let offset := ((block * client.blkSize + client.blockWrapOffset) % 2 ^ 32).toNat
  let newsize := (offset + src.length) % 2 ^ 32
  { client with
    memory := putBytes client.memory offset src
    bootFileXferSize :=
      if client.bootFileXferSize < newsize then newsize else client.bootFileXferSize }

def newTransfer (client : Client) : Client :=
  { client with lastBlock := 0, blockWrap := 0, blockWrapOffset := 0 }

def updateBlockNumber (client : Client) : Client :=
  if client.block = 0 ∧ client.lastBlock ≠ 0 then
    { client with
      blockWrap := (client.blockWrap + 1) % 2 ^ 32
      blockWrapOffset :=
        (client.blockWrapOffset + client.blkSize * tftpSequenceSize) % 2 ^ 32
      timeoutCount := 0 }
  else
    client

def tftpComplete (client : Client) : Client := { client with netState := .success }

def tftpSend (options : Options) (client : Client) : List Packet :=
  match client.state with
  | .sendRrq | .sendWrq =>
      [.rrq options.filename (options.timeoutMSecs / 1000) options.blkSizeOption]
  | .oack | .recvWrq | .data => [.ack (client.block % 65536)]
  | .tooLarge => [.error 3 "File too large"]
  | .badMagic => [.error 2 "File has bad magic"]

def ntohs (bytes : List UInt8) : Nat :=
  256 * (bytes.getD 0 0).toNat + (bytes.getD 1 0).toNat

def blksizeName : List UInt8 := [98, 108, 107, 115, 105, 122, 101, 0]

/-- The loop over the options: each place behind which there is a `blksize` gives a
block size. -/
def oackBlkSize (blkSize : Nat) : List UInt8 → Nat
  | [] => blkSize
  | byte :: rest =>
      let options := byte :: rest
      oackBlkSize (if 8 < options.length ∧ options.take 8 = blksizeName then
          (Library.simpleStrtoul (options.drop 8) 10).1 % 65536
        else blkSize)
        rest

/-- A block that may be the one that was received last. -/
def takeBlock (options : Options) (body : List UInt8) (client : Client) : Client × List Packet :=
  if client.block = client.lastBlock then (client, [])
  else
    let stored := storeBlock (client.block - 1) body
      { client with lastBlock := client.block, timeoutCountMax := timeoutCountDefault }
    (if body.length < client.blkSize then tftpComplete stored else stored,
      tftpSend options stored)

def receiveData (options : Options) (pkt : List UInt8) (src : Nat) (client : Client) :
    Client × List Packet :=
  if pkt.length < 2 then (client, [])
  else
    let numbered := updateBlockNumber { client with block := ntohs pkt }
    let body := pkt.drop 2
    if numbered.state = .sendRrq ∨ numbered.state = .oack ∨ numbered.state = .recvWrq then
      let first := newTransfer { numbered with state := .data, remotePort := src }
      if first.block ≠ 1 then ({ first with netState := .startAgain }, [])
      else takeBlock options body first
    else takeBlock options body numbered

def receiveOack (options : Options) (pkt : List UInt8) (src : Nat) (client : Client) :
    Client × List Packet :=
  let negotiated := { client with
    state := .oack
    remotePort := src
    blkSize := oackBlkSize client.blkSize pkt }
  (negotiated, tftpSend options negotiated)

/-- Errors 1 and 2 (file not found, access denied) end the transfer. -/
def receiveError (pkt : List UInt8) (client : Client) : Client :=
  if ntohs pkt = 1 ∨ ntohs pkt = 2 then { client with netState := .fail }
  else { client with netState := .startAgain }

def tftpHandler (options : Options) (pkt : List UInt8) (dest src : Nat) (client : Client) :
    Client × List Packet :=
  if dest ≠ client.ourPort then (client, [])
  else if client.state ≠ .sendRrq ∧ src ≠ client.remotePort ∧ client.state ≠ .recvWrq ∧
      client.state ≠ .sendWrq then
    (client, [])
  else if pkt.length < 2 then (client, [])
  else
    match ntohs pkt with
    | 3 => receiveData options (pkt.drop 2) src client
    | 5 => (receiveError (pkt.drop 2) client, [])
    | 6 => receiveOack options (pkt.drop 2) src client
    | _ => (client, [])

def tftpTimeout (options : Options) (client : Client) : Client × List Packet :=
  let counted := { client with timeoutCount := client.timeoutCount + 1 }
  if counted.timeoutCount > counted.timeoutCountMax then
    ({ counted with netState := .startAgain }, [])
  else if counted.state ≠ .recvWrq then (counted, tftpSend options counted)
  else (counted, [])

/-- `NetLoop` clears the size and the state of the loop before it calls `TftpStart`.
The variables of the last transfer keep their values. -/
def tftpStart (options : Options) (ourPort : Nat) (client : Client) : Client × List Packet :=
  let started := { client with
    bootFileXferSize := 0
    netState := .goOn
    state := .sendRrq
    timeoutCountMax := options.rrqTimeoutCountMax
    remotePort := wellKnownPort
    timeoutCount := 0
    ourPort := ourPort
    block := 0
    blkSize := tftpBlockSize }
  (started, tftpSend options started)

end UBootV210.Net.Tftp
