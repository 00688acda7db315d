import UBootV210.Foundation.Run
import UBootV210.Net.Tftp

/-! # A TFTP transfer

The client, a server that sends one block after the other, and a network that loses,
delays and repeats what they send. -/

namespace UBootV210.Net.Tftp

open StaticBuffer PrefixCopy

/-- A server that sends a file. It answers the request with an option
acknowledgement or with the first block. -/
structure Server where
  file : List UInt8
  port : Nat
  oack : Option (List UInt8)
  blkSize : Nat
  agreed : blkSize = match oack with
    | none => tftpBlockSize
    | some options => oackBlkSize tftpBlockSize options
  positive : 0 < blkSize

namespace Server

variable (server : Server)

/-- The last block is shorter than the others. -/
def lastBlock : Nat := server.file.length / server.blkSize + 1

def body (block : Nat) : List UInt8 :=
  (server.file.drop ((block - 1) * server.blkSize)).take server.blkSize

def dataPacket (block : Nat) : List UInt8 :=
  [0, 3, UInt8.ofNat (block / 256), UInt8.ofNat block] ++ server.body block

def oackPacket (options : List UInt8) : List UInt8 := [0, 6] ++ options

end Server

/-! ## The transfer -/

/-- `current` is the block that the server sends; 0 is the option acknowledgement.
`taken` is the block of the file that the client took last, and `acks` has the number of
each acknowledgement with the block that it was sent for. -/
structure Transfer where
  client : Client
  current : Nat
  taken : Nat
  acks : List (Nat × Nat)

inductive Event
  | data (block : Nat)
  | oack
  | ack (number block : Nat)
  | timeout

namespace Transfer

variable (server : Server) (options : Options)

def acksFor (block : Nat) (packets : List Packet) : List (Nat × Nat) :=
  packets.filterMap fun packet =>
    match packet with
    | .ack number => some (number, block)
    | _ => none

def handle (packet : List UInt8) (transfer : Transfer) : Client × List Packet :=
  tftpHandler options packet transfer.client.ourPort server.port transfer.client

def after (transfer : Transfer) (taken : Nat) (handled : Client × List Packet) : Transfer :=
  { transfer with
    client := handled.1
    taken := taken
    acks := acksFor taken handled.2 ++ transfer.acks }

-- A block that is ignored is not acknowledged.
def receiveBlock (block : Nat) (transfer : Transfer) : Transfer :=
  let handled := transfer.handle server options (server.dataPacket block)
  transfer.after (if handled.2.isEmpty then transfer.taken else block) handled

/-- An acknowledgement of the current block makes the server send the next one. -/
def receiveAck (number : Nat) (transfer : Transfer) : Transfer :=
  if number = transfer.current % tftpSequenceSize ∧ transfer.current < server.lastBlock then
    { transfer with current := transfer.current + 1 }
  else
    transfer

/-- Every packet that was sent may arrive at any time, and any number of times. -/
inductive Step : Transfer → Event → Transfer → Prop
  | data {transfer : Transfer} {block : Nat} :
      transfer.client.netState = .goOn → 1 ≤ block → block ≤ transfer.current →
      Step transfer (.data block) (transfer.receiveBlock server options block)
  | oack {transfer : Transfer} {text : List UInt8} :
      transfer.client.netState = .goOn → server.oack = some text →
      Step transfer .oack (transfer.after transfer.taken
        (transfer.handle server options (Server.oackPacket text)))
  | ack {transfer : Transfer} {number block : Nat} :
      (number, block) ∈ transfer.acks →
      Step transfer (.ack number block) (transfer.receiveAck server number)
  | timeout {transfer : Transfer} :
      transfer.client.netState = .goOn →
      Step transfer .timeout (transfer.after transfer.taken (tftpTimeout options transfer.client))

def start (ourPort : Nat) (client : Client) : Transfer where
  client := (tftpStart options ourPort client).1
  current := if server.oack.isSome then 0 else 1
  taken := 0
  acks := []

/-- A block is the one that was taken last or it belongs to the current round of block
numbers, where number 0 starts the next one. Acknowledgements do not arrive so late that
their number is in use again, and the option acknowledgement comes before the blocks. -/
def Timely (transfer : Transfer) : Event → Prop
  | .data block => transfer.client.state = .data →
      block % tftpSequenceSize = transfer.client.lastBlock ∨
        block / tftpSequenceSize = transfer.client.blockWrap +
          if block % tftpSequenceSize = 0 then 1 else 0
  | .oack => transfer.client.state ≠ .data
  | .ack number block =>
      number = transfer.current % tftpSequenceSize → block = transfer.current
  | .timeout => True

end Transfer

section Packets

variable {server : Server} {options : Options} {client : Client} {block : Nat} {text : List UInt8}

theorem ntohs_block : ntohs (UInt8.ofNat (block / 256) :: UInt8.ofNat block :: text) =
    block % tftpSequenceSize := by
  simp only [ntohs, List.getD_cons_zero, List.getD_cons_succ, UInt8.toNat_ofNat', tftpSequenceSize]
  omega

def Heard (server : Server) (client : Client) : Prop :=
  client.state = .sendRrq ∨ client.remotePort = server.port

theorem tftpHandler_of_heard (heard : Heard server client) (long : 2 ≤ pkt.length) :
    tftpHandler options pkt client.ourPort server.port client =
      match ntohs pkt with
      | 3 => receiveData options (pkt.drop 2) server.port client
      | 5 => (receiveError (pkt.drop 2) client, [])
      | 6 => receiveOack options (pkt.drop 2) server.port client
      | _ => (client, []) := by
  have known : ¬ (client.state ≠ .sendRrq ∧ server.port ≠ client.remotePort ∧
      client.state ≠ .recvWrq ∧ client.state ≠ .sendWrq) := by
    rcases heard with request | same
    · exact fun unknown => unknown.1 request
    · exact fun unknown => unknown.2.1 same.symm
  unfold tftpHandler
  apply (if_neg (not_not_intro rfl)).trans
  apply (if_neg known).trans
  exact if_neg (Nat.not_lt.mpr long)

theorem tftpHandler_dataPacket (heard : Heard server client) :
    tftpHandler options (server.dataPacket block) client.ourPort server.port client =
      receiveData options ((server.dataPacket block).drop 2) server.port client :=
  tftpHandler_of_heard heard (by simp [Server.dataPacket])

theorem tftpHandler_oackPacket (heard : Heard server client) :
    tftpHandler options (Server.oackPacket text) client.ourPort server.port client =
      receiveOack options text server.port client :=
  tftpHandler_of_heard heard (by simp [Server.oackPacket])

theorem oackBlkSize_cases : (∀ blkSize, oackBlkSize blkSize text = blkSize) ∨
      ∃ named, ∀ blkSize, oackBlkSize blkSize text = named := by
  induction text with
  | nil => exact .inl fun _ => rfl
  | cons byte rest induction =>
    simp only [oackBlkSize]
    rcases induction with none | ⟨named, all⟩
    · simp only [none]
      split
      · exact .inr ⟨_, fun _ => rfl⟩
      · exact .inl fun _ => rfl
    · exact .inr ⟨named, fun _ => all _⟩

theorem oackBlkSize_oackBlkSize :
    oackBlkSize (oackBlkSize blkSize text) text = oackBlkSize blkSize text := by
  rcases oackBlkSize_cases with none | ⟨named, all⟩
  · rw [none]
  · rw [all, all]

end Packets

namespace Server

variable {server : Server} {block : Nat}

theorem lastBlock_le_length : server.lastBlock ≤ server.file.length + 1 :=
  Nat.succ_le_succ (Nat.div_le_self _ _)

theorem start_le (known : block ≤ server.lastBlock) :
    (block - 1) * server.blkSize ≤ server.file.length := by
  have order : block - 1 ≤ server.file.length / server.blkSize := Nat.sub_le_of_le_add known
  exact (Nat.mul_le_mul_right _ order).trans (Nat.div_mul_le_self _ _)

theorem stop_eq (server : Server) (some : 1 ≤ block) :
    (block - 1) * server.blkSize + server.blkSize = block * server.blkSize := by
  rw [← Nat.succ_mul, Nat.succ_eq_add_one, Nat.sub_add_cancel some]

theorem start_add_length (some : 1 ≤ block) (known : block ≤ server.lastBlock) :
    (block - 1) * server.blkSize + (server.body block).length =
      min (block * server.blkSize) server.file.length := by
  have start := start_le known
  have stop := stop_eq server some
  rw [body, List.length_take, List.length_drop]
  omega

theorem length_lt : server.file.length < server.lastBlock * server.blkSize := by
  rw [Nat.mul_comm]
  exact Nat.lt_mul_div_succ _ server.positive

theorem length_body_lt_iff (some : 1 ≤ block) (known : block ≤ server.lastBlock) :
    (server.body block).length < server.blkSize ↔ block = server.lastBlock := by
  have start := start_le known
  have stop := stop_eq server some
  have length : (server.body block).length < server.blkSize ↔
      server.file.length < block * server.blkSize := by
    rw [body, List.length_take, List.length_drop]
    omega
  rw [length, ← Nat.div_lt_iff_lt_mul server.positive]
  rw [lastBlock] at known ⊢
  exact ⟨fun order => Nat.le_antisymm known order, fun equal => by omega⟩

end Server

end UBootV210.Net.Tftp
