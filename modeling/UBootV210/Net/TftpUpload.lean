import UBootV210.Foundation.Run
import UBootV210.Net.Tftp

/-! # A TFTP upload

The client with `CONFIG_CMD_TFTPPUT` while it writes, a receiver that takes one block
after the other, and a network that loses, delays and repeats blocks and
acknowledgements. -/

namespace UBootV210.Net.Tftp

open StaticBuffer

/-- Here `memory` is what lies behind `save_addr`. -/
structure Writer extends Client where
  finalBlock : Bool

abbrev Data := Nat × List UInt8

def loadBlock (writer : Writer) : List UInt8 :=
  let offset :=
    ((((writer.block : Int) - 1) * writer.blkSize + writer.blockWrapOffset) % 2 ^ 32).toNat
  slice writer.memory offset
    (min ((writer.bootFileXferSize + 2 ^ 32 - offset) % 2 ^ 32) writer.blkSize)

/-- `TftpSend`; the request has no data. -/
def sendBlock (writer : Writer) : Writer × List Data :=
  if writer.state = .data then
    let bytes := loadBlock writer
    ({ writer with finalBlock := bytes.length < writer.blkSize },
      [(writer.block % tftpSequenceSize, bytes)])
  else
    (writer, [])

def receiveAck (number : Nat) (writer : Writer) : Writer × List Data :=
  if writer.finalBlock then
    ({ writer with toClient := tftpComplete writer.toClient }, [])
  else
    let moved := { writer with
      toClient := updateBlockNumber
        { writer.toClient with block := (number + 1) % tftpSequenceSize } }
    if writer.block = number then sendBlock moved else (moved, [])

def acceptOptions (blkSize : Nat) (writer : Writer) : Writer × List Data :=
  sendBlock { writer with state := .data, blkSize := blkSize, block := writer.block + 1 }

def writeTimeout (writer : Writer) : Writer × List Data :=
  let counted := { writer with timeoutCount := writer.timeoutCount + 1 }
  if counted.timeoutCount > counted.timeoutCountMax then
    ({ counted with netState := .startAgain }, [])
  else
    sendBlock counted

def writeStart (size : Nat) (client : Client) : Writer where
  toClient := newTransfer { client with
    bootFileXferSize := size, netState := .goOn, state := .sendWrq, timeoutCount := 0
    block := 0, blkSize := tftpBlockSize }
  finalBlock := false

/-- A receiver answers the request with the block size or with an acknowledgement. -/
structure Receiver where
  options : Bool
  blkSize : Nat
  positive : 0 < blkSize
  fits : blkSize < 65536

/-- All blocks and acknowledgements that were sent, the number of blocks that the receiver
has taken, and what it has stored. -/
structure Upload where
  writer : Writer
  sent : List Data
  acks : List Nat
  taken : Nat
  stored : List UInt8

variable {writer : Writer}

namespace Upload

variable (receiver : Receiver)

inductive Event
  | oack
  | data (packet : Data)
  | ack (number : Nat)
  | timeout

def after (handled : Writer × List Data) (upload : Upload) : Upload :=
  { upload with writer := handled.1, sent := handled.2 ++ upload.sent }

/-- Only the block that is next is stored. -/
def take (packet : Data) (upload : Upload) : Upload :=
  if packet.1 = (upload.taken + 1) % tftpSequenceSize then
    { upload with
      acks := packet.1 :: upload.acks
      taken := upload.taken + 1
      stored := upload.stored ++ packet.2 }
  else
    upload

/-- What was sent may arrive at any time, and any number of times. -/
inductive Step : Upload → Event → Upload → Prop
  | oack {upload : Upload} : receiver.options = true → upload.writer.netState = .goOn →
      Step upload .oack (upload.after (acceptOptions receiver.blkSize upload.writer))
  | data {upload : Upload} {packet : Data} : packet ∈ upload.sent →
      Step upload (.data packet) (upload.take packet)
  | ack {upload : Upload} {number : Nat} : number ∈ upload.acks →
      upload.writer.netState = .goOn →
      Step upload (.ack number) (upload.after (receiveAck number upload.writer))
  | timeout {upload : Upload} : upload.writer.netState = .goOn →
      Step upload .timeout (upload.after (writeTimeout upload.writer))

def start (size : Nat) (client : Client) : Upload where
  writer := writeStart size client
  sent := []
  acks := if receiver.options then [] else [0]
  taken := 0
  stored := []

/-- An acknowledgement that arrives when the last block was sent is the one of that
block. The options are acknowledged before the first block. -/
def Prompt (upload : Upload) : Event → Prop
  | .oack => upload.writer.state = .sendWrq
  | .ack number => upload.writer.finalBlock = true → number = upload.writer.block
  | _ => True

/-! ## Blocks of the region -/

section

variable (memory : Nat → UInt8) (size : Nat)

/-- The last block, which is shorter than the others; the first one has index 0. -/
def lastIndex : Nat := size / receiver.blkSize

def chunk (index : Nat) : List UInt8 :=
  slice memory (index * receiver.blkSize) (min (size - index * receiver.blkSize) receiver.blkSize)

def Writes (writer : Writer) : Prop :=
  writer.memory = memory ∧ writer.bootFileXferSize = size ∧ writer.lastBlock = 0 ∧
    writer.blockWrapOffset = 0

end

section

variable {receiver : Receiver} {memory : Nat → UInt8} {size index : Nat}

theorem start_le_size (inRange : index ≤ lastIndex receiver size) :
    index * receiver.blkSize ≤ size :=
  (Nat.mul_le_mul_right _ inRange).trans (Nat.div_mul_le_self _ _)

theorem size_lt_iff (inRange : index ≤ lastIndex receiver size) :
    size < index * receiver.blkSize + receiver.blkSize ↔ index = lastIndex receiver size := by
  rw [← Nat.succ_mul, ← Nat.div_lt_iff_lt_mul receiver.positive]
  change lastIndex receiver size < index + 1 ↔ _
  omega

theorem slice_append :
    slice memory 0 first ++ slice memory first second = slice memory 0 (first + second) := by
  simp [slice, List.range_add]

theorem slice_chunk (inRange : index ≤ lastIndex receiver size) :
    slice memory 0 (min size (index * receiver.blkSize)) ++ chunk receiver memory size index =
      slice memory 0 (min size ((index + 1) * receiver.blkSize)) := by
  have before := start_le_size inRange
  rw [chunk, Nat.min_eq_right before, slice_append, Nat.succ_mul]
  congr 1
  omega

theorem sendBlock_eq (short : lastIndex receiver size < 65535) (writes : Writes memory size writer)
    (state : writer.state = .data) (blkSize : writer.blkSize = receiver.blkSize)
    (block : writer.block = index + 1) (inRange : index ≤ lastIndex receiver size) :
    sendBlock writer = ({ writer with finalBlock := index = lastIndex receiver size },
      [(index + 1, chunk receiver memory size index)]) := by
  have before := start_le_size inRange
  have fits : size < 2 ^ 32 := by
    have small := (Nat.div_lt_iff_lt_mul receiver.positive).mp short
    have bounded := Nat.mul_le_mul_left 65535 (Nat.le_of_lt_succ receiver.fits)
    omega
  have offset : ((((writer.block : Int) - 1) * writer.blkSize + writer.blockWrapOffset) %
      2 ^ 32).toNat = index * receiver.blkSize := by
    have exact : (((index + 1 : Nat) : Int) - 1) * receiver.blkSize + (0 : Nat) =
        ((index * receiver.blkSize : Nat) : Int) := by
      push_cast
      ring
    rw [block, blkSize, writes.2.2.2, exact]
    omega
  have bytes : loadBlock writer = chunk receiver memory size index := by
    rw [loadBlock, offset, writes.1, writes.2.1, blkSize, chunk]
    congr 2
    omega
  have last : ((chunk receiver memory size index).length < receiver.blkSize) ↔
      index = lastIndex receiver size := by
    rw [chunk, length_slice, ← size_lt_iff inRange]
    omega
  have small : (index + 1) % tftpSequenceSize = index + 1 :=
    Nat.mod_eq_of_lt (by rw [tftpSequenceSize]; omega)
  rw [sendBlock, if_pos state]
  simp only [bytes, blkSize, block, small, last]

/-! ## The invariant -/

/-- The last block is sent for the first time when all others are acknowledged, and then
the client waits for its acknowledgement. -/
structure Invariant (receiver : Receiver) (memory : Nat → UInt8) (size : Nat) (upload : Upload) :
    Prop where
  writes : Writes memory size upload.writer
  request : upload.writer.state ≠ .data → upload.writer.finalBlock = false ∧ upload.sent = [] ∧
    (receiver.options = true → upload.writer.block = 0 ∧ upload.acks = [])
  data : upload.writer.state = .data → upload.writer.blkSize = receiver.blkSize ∧
    ∃ index ≤ lastIndex receiver size, upload.writer.block = index + 1
  final : upload.writer.finalBlock = true → upload.writer.block = lastIndex receiver size + 1
  sent : ∀ packet ∈ upload.sent, ∃ index ≤ lastIndex receiver size,
    packet = (index + 1, chunk receiver memory size index) ∧
      (index = lastIndex receiver size → upload.writer.finalBlock = true)
  acks : ∀ number ∈ upload.acks, number ≤ upload.taken
  taken : upload.taken ≤ lastIndex receiver size + 1
  takenAll : upload.taken = lastIndex receiver size + 1 → upload.writer.finalBlock = true
  stored : upload.stored = slice memory 0 (min size (upload.taken * receiver.blkSize))
  done : upload.writer.netState = .success → upload.taken = lastIndex receiver size + 1

variable {upload next : Upload} {event : Event}

theorem invariant_start : Invariant receiver client.memory size (start receiver size client) where
  writes := ⟨rfl, rfl, rfl, rfl⟩
  request _ := ⟨rfl, rfl, fun options => ⟨rfl, by simp [start, options]⟩⟩
  data state := by cases state
  final final := by cases final
  sent packet member := by cases member
  acks number member := by
    cases options : receiver.options <;> simp_all [start]
  taken := Nat.zero_le _
  takenAll all := by cases all
  stored := by simp [start, slice]
  done done := by cases done

section

variable (holds : Invariant receiver memory size upload)
include holds

theorem Invariant.take {packet : Data} (member : packet ∈ upload.sent)
    (short : lastIndex receiver size < 65535) :
    Invariant receiver memory size (upload.take packet) := by
  rcases holds.sent packet member with ⟨index, inRange, rfl, last⟩
  rw [Upload.take]
  split
  case isFalse => exact holds
  case isTrue expected =>
    have bound := holds.taken
    have taken : upload.taken = index := by
      dsimp only [tftpSequenceSize] at expected
      omega
    refine ⟨holds.writes, ?_, holds.data, holds.final, holds.sent, ?_, ?_, ?_, ?_, ?_⟩
    · intro state
      rw [(holds.request state).2.1] at member
      cases member
    · intro number within
      rcases List.mem_cons.mp within with rfl | before
      · simp [taken]
      · exact (holds.acks number before).trans (Nat.le_succ _)
    · simpa [taken] using inRange
    · intro all
      exact last (by simpa [taken] using all)
    · simp only [holds.stored, taken]
      exact slice_chunk inRange
    · intro success
      have full := holds.done success
      omega

theorem Invariant.wait (writes : Writes memory size writer)
    (same : writer.finalBlock = upload.writer.finalBlock)
    (state : writer.state = upload.writer.state) (blkSize : writer.blkSize = upload.writer.blkSize)
    (idle : writer.state ≠ .data → receiver.options = true → writer.block = 0)
    (block : writer.state = .data → ∃ index ≤ lastIndex receiver size, writer.block = index + 1)
    (final : writer.finalBlock = true → writer.block = lastIndex receiver size + 1)
    (done : writer.netState = .success → upload.taken = lastIndex receiver size + 1) :
    Invariant receiver memory size (upload.after (writer, [])) where
  writes := writes
  request waits := by
    have before := holds.request (by rwa [← state])
    exact ⟨same.trans before.1, before.2.1, fun options => ⟨idle waits options,
      (before.2.2 options).2⟩⟩
  data sends := ⟨blkSize.trans (holds.data (state.symm.trans sends)).1, block sends⟩
  final := final
  sent := by simpa [after, same] using holds.sent
  acks := holds.acks
  taken := holds.taken
  takenAll all := same.trans (holds.takenAll all)
  stored := holds.stored
  done := done

theorem Invariant.send (short : lastIndex receiver size < 65535)
    (writes : Writes memory size writer) (state : writer.state = .data)
    (blkSize : writer.blkSize = receiver.blkSize) (block : writer.block = index + 1)
    (inRange : index ≤ lastIndex receiver size) (goesOn : writer.netState ≠ .success)
    (kept : upload.writer.finalBlock = true → index = lastIndex receiver size) :
    Invariant receiver memory size (upload.after (sendBlock writer)) := by
  rw [sendBlock_eq short writes state blkSize block inRange]
  refine ⟨writes, fun other => absurd state other, fun _ => ⟨blkSize, index, inRange, block⟩,
    ?_, ?_, holds.acks, holds.taken, ?_, holds.stored, fun success => absurd success goesOn⟩
  · intro final
    rw [← of_decide_eq_true final]
    exact block
  · intro packet member
    rcases List.mem_cons.mp member with rfl | before
    · exact ⟨index, inRange, rfl, fun last => decide_eq_true last⟩
    · rcases holds.sent packet before with ⟨earlier, within, equal, last⟩
      exact ⟨earlier, within, equal, fun isLast => decide_eq_true (kept (last isLast))⟩
  · intro all
    exact decide_eq_true (kept (holds.takenAll all))

theorem Invariant.ack (short : lastIndex receiver size < 65535) (member : number ∈ upload.acks)
    (goesOn : upload.writer.netState = .goOn) (prompt : Prompt upload (.ack number)) :
    Invariant receiver memory size (upload.after (receiveAck number upload.writer)) := by
  have bound := holds.acks number member
  rw [receiveAck]
  by_cases final : upload.writer.finalBlock = true
  · rw [if_pos final]
    have equal : number = lastIndex receiver size + 1 := (prompt final).trans (holds.final final)
    have most := holds.taken
    exact holds.wait holds.writes rfl rfl rfl
      (fun state options => ((holds.request state).2.2 options).1)
      (fun state => (holds.data state).2) holds.final (fun _ => by omega)
  · have inRange : number ≤ lastIndex receiver size := by
      have notAll := mt holds.takenAll final
      have most := holds.taken
      omega
    have block : (number + 1) % tftpSequenceSize = number + 1 :=
      Nat.mod_eq_of_lt (by rw [tftpSequenceSize]; omega)
    have moved : updateBlockNumber { upload.writer.toClient with block := number + 1 } =
        { upload.writer.toClient with block := number + 1 } := if_neg (by simp)
    have waits : Invariant receiver memory size (upload.after
        ({ upload.writer with block := number + 1 }, [])) := by
      refine holds.wait holds.writes rfl rfl rfl ?_ (fun _ => ⟨number, inRange, rfl⟩)
        (fun isFinal => absurd isFinal final) ?_
      · intro state options
        rw [((holds.request state).2.2 options).2] at member
        cases member
      · intro success
        exact absurd (goesOn.symm.trans success) (by decide)
    rw [if_neg final]
    simp only [block, moved]
    split
    case isFalse => exact waits
    case isTrue =>
      by_cases state : upload.writer.state = .data
      · exact holds.send short holds.writes state (holds.data state).1 rfl inRange
          (by simp [goesOn]) (fun isFinal => absurd isFinal final)
      · rw [sendBlock, if_neg state]
        exact waits

theorem Invariant.timeout (short : lastIndex receiver size < 65535)
    (goesOn : upload.writer.netState = .goOn) :
    Invariant receiver memory size (upload.after (writeTimeout upload.writer)) := by
  have waits : ∀ count netState, netState ≠ .success → Invariant receiver memory size
      (upload.after ({ upload.writer with timeoutCount := count, netState := netState }, [])) := by
    intro count netState notDone
    exact holds.wait holds.writes rfl rfl rfl
      (fun state options => ((holds.request state).2.2 options).1)
      (fun state => (holds.data state).2) holds.final (fun success => absurd success notDone)
  rw [writeTimeout]
  split
  case isTrue => exact waits _ _ (by decide)
  case isFalse =>
    by_cases state : upload.writer.state = .data
    · rcases holds.data state with ⟨blkSize, index, inRange, block⟩
      refine holds.send short holds.writes state blkSize block inRange (by simp [goesOn]) ?_
      intro final
      have last := holds.final final
      omega
    · rw [sendBlock, if_neg state]
      simpa [goesOn] using waits (upload.writer.timeoutCount + 1) .goOn (by decide)

end

theorem Invariant.step (short : lastIndex receiver size < 65535)
    (step : Step receiver upload event next) (prompt : Prompt upload event)
    (holds : Invariant receiver memory size upload) :
    Invariant receiver memory size next := by
  cases step with
  | oack options goesOn =>
    have state : upload.writer.state = .sendWrq := prompt
    have idle := holds.request (by simp [state])
    have first := (idle.2.2 options).1
    exact holds.send short holds.writes
      rfl rfl (congrArg (· + 1) first) (Nat.zero_le _) (by simp [goesOn]) (by simp [idle.1])
  | data member => exact holds.take member short
  | ack member goesOn => exact holds.ack short member goesOn prompt
  | timeout goesOn => exact holds.timeout short goesOn

theorem uploaded (client : Client) (size : Nat) {events : List Event} {upload : Upload}
    (short : lastIndex receiver size < 65535)
    (run : Run (fun upload event next => Step receiver upload event next ∧ Prompt upload event)
      (start receiver size client) events upload)
    (complete : upload.writer.netState = .success) :
    upload.stored = slice client.memory 0 size := by
  have holds : Invariant receiver client.memory size upload :=
    @Run.invariant _ _ _ (Invariant receiver client.memory size)
      (fun stepped holds => Invariant.step short stepped.1 stepped.2 holds) _ _ _ run
      invariant_start
  have whole : size ≤ (lastIndex receiver size + 1) * receiver.blkSize := by
    rw [Nat.succ_mul]
    exact Nat.le_of_lt ((size_lt_iff le_rfl).mpr rfl)
  rw [holds.stored, holds.done complete, Nat.min_eq_left whole]

end

def blocksOfTwo : Receiver := ⟨true, 2, by decide, by decide⟩

def counting : Client :=
  ⟨wellKnownPort, 2000, 0, 10, 0, 0, 0, 0, tftpBlockSize, .sendWrq, 0, UInt8.ofNat, .goOn⟩

/-- The first block arrives a second time. -/
def fiveByteEvents : List Event :=
  [.oack, .data (1, [0, 1]), .ack 1, .data (1, [0, 1]), .data (2, [2, 3]), .ack 2, .data (3, [4]),
    .ack 3]

theorem uploaded_five_bytes : ∃ upload,
    Run (Step blocksOfTwo) (start blocksOfTwo 5 counting) fiveByteEvents upload ∧
      upload.writer.netState = .success ∧ upload.stored = slice counting.memory 0 5 := by
  have run : Run (fun upload event next => Step blocksOfTwo upload event next ∧ Prompt upload event)
      (start blocksOfTwo 5 counting) fiveByteEvents _ :=
    .cons ⟨.oack rfl rfl, rfl⟩ (.cons ⟨.data (by decide), trivial⟩
      (.cons ⟨.ack (by decide) rfl, fun _ => rfl⟩ (.cons ⟨.data (by decide), trivial⟩
        (.cons ⟨.data (by decide), trivial⟩ (.cons ⟨.ack (by decide) rfl, fun _ => rfl⟩
          (.cons ⟨.data (by decide), trivial⟩ (.cons ⟨.ack (by decide) rfl, fun _ => rfl⟩
            (.nil _))))))))
  exact ⟨_, run.mono And.left, rfl, uploaded counting 5 (by decide) run rfl⟩

/-- The first acknowledgement arrives once more when the last block is on its way. -/
theorem uploaded_too_early : ∃ upload, Run (Step blocksOfTwo) (start blocksOfTwo 3 counting)
        [.oack, .data (1, [0, 1]), .ack 1, .ack 1] upload ∧
      upload.writer.netState = .success ∧ upload.stored ≠ slice counting.memory 0 3 :=
  ⟨_, .cons (.oack rfl rfl) (.cons (.data (by decide)) (.cons (.ack (by decide) rfl)
    (.cons (.ack (by decide) rfl) (.nil _)))), rfl, by decide⟩

end Upload

end UBootV210.Net.Tftp
