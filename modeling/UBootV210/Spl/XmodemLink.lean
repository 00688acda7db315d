import UBootV210.Spl.XmodemPoll

/-! # An XMODEM sender and the receiver on one line

The sender of a file and the receiver of the SPL, joined by a line that keeps
the bytes of the sender in order and loses replies. -/

namespace UBootV210.Spl

structure Block where
  bytes : List UInt8
  size : bytes.length = XMODEM_DATA_SIZE

/-- The frame of the block at a position of the file. Packet numbers start at
one and are cut to a byte. -/
def Block.frame (block : Block) (position : Nat) : List UInt8 :=
  let number := UInt8.ofNat (position + 1)
  let crc := calcCrc block.bytes
  [XM_FRAME_SOH, number, ~~~number] ++ block.bytes ++ [(crc >>> 8).toUInt8, crc.toUInt8]

theorem Block.length_frame (block : Block) (position : Nat) :
    (block.frame position).length = XMODEM_SOH_FRAME_SIZE := by
  simp only [frame, List.length_append, block.size]
  rfl

inductive Transmission
  | frame (position : Nat) (block : Block)
  | eot

namespace Transmission

def bytes : Transmission → List UInt8
  | frame position block => block.frame position
  | eot => [XM_FRAME_EOT]

end Transmission

/-- `position` is the block that the sender is sending. The line holds the rest
of the transmission that is being read, and the transmissions behind it. -/
structure Link where
  receiver : Receiver
  position : Nat
  reading : List UInt8
  queue : List Transmission
  replies : List UInt8
  delivered : List (List UInt8)

inductive LinkEvent
  | send
  | takeReply
  | loseReply (index : Nat)
  | poll (timestamp : Int32) (arrives : Bool)

namespace Link

-- The sender may run into a timeout at any time, so it may always send again.
def send (file : List Block) (link : Link) : Link :=
  { link with
    queue := link.queue ++ [match file[link.position]? with
        | some block => .frame link.position block
        | none => .eot] }

def takeReply (file : List Block) (link : Link) : Link :=
  match link.replies with
  | [] => link
  | reply :: replies =>
      { link with
        replies := replies
        position :=
          if reply = XM_FRAME_ACK ∧ link.position < file.length then
            link.position + 1
          else
            link.position }

def loseReply (index : Nat) (link : Link) : Link :=
  { link with replies := link.replies.eraseIdx index }

def nextByte (link : Link) : Option UInt8 × List UInt8 × List Transmission :=
  match link.reading, link.queue with
  | byte :: reading, queue => (some byte, reading, queue)
  | [], transmission :: queue => (transmission.bytes.head?, transmission.bytes.tail, queue)
  | [], [] => (none, [], [])

def afterPoll (link : Link) (reading : List UInt8) (queue : List Transmission)
    (receiver : Receiver) : Link :=
  { link with
    receiver := { receiver with callbacks := [], sent := [] }
    reading := reading
    queue := queue
    replies := link.replies ++ receiver.sent
    delivered := link.delivered ++ receiver.callbacks.filterMap Callback.payload }

def poll (timestamp : Int32) (arrives : Bool) (link : Link) : Exec Link :=
  if link.receiver.xmState = .stop then
    .ok link
  else
    let (recved, reading, queue) :=
      if arrives then link.nextByte else (none, link.reading, link.queue)
    (menuDownload timestamp recved link.receiver).map (link.afterPoll reading queue)

def step (file : List Block) (link : Link) : LinkEvent → Exec Link
  | .send => .ok (link.send file)
  | .takeReply => .ok (link.takeReply file)
  | .loseReply index => .ok (link.loseReply index)
  | .poll timestamp arrives => link.poll timestamp arrives

def start (receiver : Receiver) : Link where
  receiver := { doXmodemDownloadInit receiver with callbacks := [], sent := [] }
  position := 0
  reading := []
  queue := []
  replies := []
  delivered := []

end Link

/-! ## Transfers in step -/

def Receiver.held (receiver : Receiver) : List UInt8 :=
  match receiver.xmState with
  | .entry => receiver.uart.bytes
  | .waitTrans | .transmit =>
      receiver.frame.toList.take receiver.frameOffset.toNat ++ receiver.uart.bytes
  | .exit | .stop => []

/-- When the first byte of a transmission is read, the receiver holds nothing,
and a frame is one of a block that was not delivered before. -/
def LinkEvent.inStep (link : Link) : LinkEvent → Bool
  | .poll _ true =>
      match link.reading, link.queue with
      | [], .frame index _ :: _ => link.receiver.held = [] && link.delivered.length ≤ index
      | [], .eot :: _ => link.receiver.held = []
      | _, _ => true
  | _ => true

def InStepLink (file : List Block) (first : Link) (event : LinkEvent) (next : Link) : Prop :=
  event.inStep first = true ∧ first.step file event = .ok next

/-- The bytes held and the rest on the line are a frame that may be delivered
next, or too few bytes for any frame. -/
inductive Aligned (file : List Block) (held reading : List UInt8) (position delivered : Nat) :
    Prop
  | inFrame (index : Nat) (block : Block) (stored : file[index]? = some block)
      (current : index ≤ position) (fresh : delivered ≤ index)
      (bytes : held ++ reading = block.frame index) (started : held ≠ [])
  | short (length : held.length + reading.length < XMODEM_SOH_FRAME_SIZE)

structure Link.Synced (file : List Block) (link : Link) : Prop where
  bounded : link.receiver.FrameBounded
  entry : link.receiver.xmState = .entry → link.reading = []
  uart : link.receiver.xmState.receiving = true →
    link.receiver.uart.bytes.length ≤ 1 ∨ link.reading = []
  silent : link.receiver.callbacks = [] ∧ link.receiver.sent = []
  aligned : Aligned file link.receiver.held link.reading link.position link.delivered.length
  queue : ∀ index block, .frame index block ∈ link.queue →
    file[index]? = some block ∧ index ≤ link.position
  acks : link.position + link.replies.count XM_FRAME_ACK ≤ link.delivered.length
  delivered : link.delivered <+: file.map Block.bytes

namespace Aligned

variable {file : List Block} {held reading : List UInt8} {position delivered : Nat}

theorem length_le (aligned : Aligned file held reading position delivered) :
    held.length ≤ XMODEM_SOH_FRAME_SIZE := by
  cases aligned with
  | inFrame index block _ _ _ bytes _ =>
    have length := congrArg List.length bytes
    rw [List.length_append, block.length_frame] at length
    omega
  | short length => omega

theorem read (aligned : Aligned file held (byte :: reading) position delivered) :
    Aligned file (held ++ [byte]) reading position delivered := by
  cases aligned with
  | inFrame index block stored current fresh bytes started =>
    exact .inFrame index block stored current fresh (by simpa using bytes) (by simp)
  | short length =>
    apply short
    rw [List.length_cons] at length
    rw [List.length_append, List.length_singleton]
    omega

theorem drop (aligned : Aligned file held reading position delivered) (other : Nat) :
    Aligned file [] reading position other := by
  apply short
  cases aligned with
  | inFrame index block _ _ _ bytes started =>
    have length := congrArg List.length bytes
    rw [List.length_append, block.length_frame] at length
    have positive := List.length_pos_of_ne_nil started
    rw [List.length_nil]
    omega
  | short length =>
    rw [List.length_nil]
    omega

theorem advance (aligned : Aligned file held reading position delivered)
    (order : position ≤ later) : Aligned file held reading later delivered := by
  cases aligned with
  | inFrame index block stored current fresh bytes started =>
    exact .inFrame index block stored (current.trans order) fresh bytes started
  | short length => exact .short length

end Aligned

namespace Link.Synced

variable {file : List Block} {link : Link}

theorem send (synced : link.Synced file) : (link.send file).Synced file := by
  refine { synced with queue := ?_ }
  intro index block member
  rcases List.mem_append.mp member with queued | new
  · exact synced.queue index block queued
  · cases stored : file[link.position]? with
    | none => simp [stored] at new
    | some sending =>
      simp only [stored, List.mem_singleton, Transmission.frame.injEq] at new
      obtain ⟨rfl, rfl⟩ := new
      exact ⟨stored, Nat.le_refl _⟩

theorem moveSender (synced : link.Synced file) {position : Nat} {replies : List UInt8}
    (order : link.position ≤ position)
    (acks : position + replies.count XM_FRAME_ACK ≤ link.delivered.length) :
    { link with position := position, replies := replies }.Synced file := by
  refine { synced with aligned := synced.aligned.advance order, queue := ?_, acks := acks }
  intro index block member
  have queued := synced.queue index block member
  exact ⟨queued.1, queued.2.trans order⟩

theorem takeReply (synced : link.Synced file) : (link.takeReply file).Synced file := by
  have acks := synced.acks
  unfold Link.takeReply
  cases replies : link.replies with
  | nil => exact synced
  | cons reply rest =>
    rw [replies, List.count_cons] at acks
    by_cases moves : reply = XM_FRAME_ACK ∧ link.position < file.length
    · simp only [moves, and_self, if_true]
      apply synced.moveSender (Nat.le_succ _)
      simp only [moves.1, beq_self_eq_true, if_true] at acks
      omega
    · simp only [moves, if_false]
      apply synced.moveSender (Nat.le_refl _)
      omega

theorem loseReply (synced : link.Synced file) (index : Nat) :
    (link.loseReply index).Synced file := by
  apply synced.moveSender (Nat.le_refl _)
  have fewer := (List.eraseIdx_sublist link.replies index).count_le XM_FRAME_ACK
  have acks := synced.acks
  omega

end Link.Synced

/-! ## The receiver keeps step -/

theorem Receiver.held_receiving {receiver : Receiver}
    (receiving : receiver.xmState.receiving = true) :
    receiver.held =
      receiver.frame.toList.take receiver.frameOffset.toNat ++ receiver.uart.bytes := by
  cases state : receiver.xmState <;> simp_all [held, XmodemState.receiving]

theorem Receiver.length_held {receiver : Receiver} (receiving : receiver.xmState.receiving = true)
    (bounded : receiver.frameOffset.toNat ≤ XMODEM_SOH_FRAME_SIZE) :
    receiver.held.length = receiver.frameOffset.toNat + receiver.uart.bytes.length := by
  rw [held_receiving receiving, List.length_append, List.length_take, Vector.length_toList,
    Nat.min_eq_left bounded]

variable {receiver : Receiver}

theorem Receiver.held_buffered
    (active : receiver.xmState = .entry ∨ receiver.xmState.receiving = true)
    (room : receiver.uart.bytes.length < UART_BUF_SIZE) :
    (receiver.buffered (some byte)).held = receiver.held ++ [byte] := by
  have buffered : (uartBuff receiver.uart byte).bytes = receiver.uart.bytes ++ [byte] := by
    rw [uartBuff, dif_pos room]
  rcases active with entry | receiving
  · simp [held, Receiver.buffered, entry, buffered]
  · rw [held_receiving receiving, @held_receiving (receiver.buffered (some byte)) receiving]
    simp [Receiver.buffered, buffered]

theorem Receiver.held_inactive {receiver : Receiver} (started : receiver.xmState ≠ .entry)
    (idle : ¬ receiver.xmState.receiving = true) : receiver.held = [] := by
  cases state : receiver.xmState <;> simp_all [held, XmodemState.receiving]

theorem Receiver.uart_of_held
    (active : receiver.xmState = .entry ∨ receiver.xmState.receiving = true)
    (nothing : receiver.held = []) : receiver.uart.bytes = [] := by
  rcases active with entry | receiving
  · rw [held, entry] at nothing
    exact nothing
  · rw [held_receiving receiving] at nothing
    exact (List.append_eq_nil_iff.mp nothing).2

variable {queue : List Transmission}

theorem LinkEvent.inStep_first
    (inStep : (LinkEvent.poll timestamp true).inStep link = true) (reading : link.reading = [])
    (queued : link.queue = transmission :: queue) :
    link.receiver.held = [] ∧
      ∀ index block, transmission = .frame index block → link.delivered.length ≤ index := by
  rw [LinkEvent.inStep, reading, queued] at inStep
  cases transmission with
  | frame position block =>
    simp only [Bool.and_eq_true, decide_eq_true_eq] at inStep
    refine ⟨inStep.1, ?_⟩
    intro index other same
    cases same
    exact inStep.2
  | eot =>
    simp only [decide_eq_true_eq] at inStep
    exact ⟨inStep, fun _ _ same => by cases same⟩

theorem Receiver.held_drained (drained : receiver.uart = .empty) : receiver.held = [] ∨
      receiver.held = receiver.frame.toList.take receiver.frameOffset.toNat := by
  cases state : receiver.xmState <;> simp [held, state, drained, UartBuffer.empty]

theorem le_frameOffset_of_checkSohFrame
    (checked : checkSohFrame frame len = true) : XMODEM_SOH_FRAME_SIZE ≤ len.toNat := by
  by_contra short
  rw [checkSohFrame, if_pos (Nat.lt_of_not_le short)] at checked
  cases checked

theorem datas_of_frame {frame : Frame} {block : Block}
    (whole : frame.toList = block.frame index) : frame.datas = block.bytes := by
  rw [Frame.datas, whole, Block.frame, ← block.size]
  simp

theorem Transmission.length_bytes_le (transmission : Transmission) :
    transmission.bytes.length ≤ XMODEM_SOH_FRAME_SIZE := by
  cases transmission with
  | frame position block => exact (block.length_frame position).le
  | eot => decide

namespace Link.Synced

variable {file : List Block} {link : Link}

section

variable (synced : link.Synced file)
include synced

/-- The byte that a poll takes from the line is read in step. The first byte of a
transmission is the only one in the buffer of the UART. -/
theorem nextByte (inStep : (LinkEvent.poll timestamp true).inStep link = true) :
    ∃ recved reading queue, link.nextByte = (recved, reading, queue) ∧ queue ⊆ link.queue ∧
      Aligned file (link.receiver.buffered recved).held reading link.position
        link.delivered.length ∧
      (link.receiver.xmState = .entry →
        (link.receiver.buffered recved).uart.bytes.length ≤ 1 ∨ reading = []) := by
  have aligned := synced.aligned
  rw [Link.nextByte]
  cases reading : link.reading with
  | cons byte rest =>
    have started : link.receiver.xmState ≠ .entry := by
      intro entry
      cases reading.symm.trans (synced.entry entry)
    refine ⟨_, _, _, rfl, fun _ member => member, ?_, fun entry => absurd entry started⟩
    rw [reading] at aligned
    by_cases active : link.receiver.xmState.receiving = true
    · have small := (synced.uart active).resolve_right (by simp [reading])
      rw [Receiver.held_buffered (.inr active) (by
        simp only [UART_BUF_SIZE]
        omega)]
      exact aligned.read
    · rw [@Receiver.held_inactive (link.receiver.buffered (some byte)) started active]
      exact aligned.read.drop _
  | nil =>
    cases queued : link.queue with
    | nil => exact ⟨_, _, _, rfl, fun _ member => member, reading ▸ aligned, fun _ => .inr rfl⟩
    | cons transmission queue =>
      obtain ⟨nothing, fresh⟩ := LinkEvent.inStep_first inStep reading queued
      obtain ⟨byte, rest, shape⟩ : ∃ byte rest, transmission.bytes = byte :: rest := by
        cases transmission with
        | frame position block => exact ⟨_, _, rfl⟩
        | eot => exact ⟨_, _, rfl⟩
      have length := transmission.length_bytes_le
      rw [shape, List.length_cons] at length
      simp only [shape, List.head?_cons, List.tail_cons]
      refine ⟨_, _, _, rfl, List.subset_cons_self _ _, ?_, fun entry => .inl ?_⟩
      · by_cases active : link.receiver.xmState = .entry ∨ link.receiver.xmState.receiving = true
        · have room : link.receiver.uart.bytes.length < UART_BUF_SIZE := by
            rw [Receiver.uart_of_held active nothing]
            decide
          rw [Receiver.held_buffered active room, nothing]
          cases transmission with
          | frame index block =>
            have sent := synced.queue index block (by simp [queued])
            exact .inFrame index block sent.1 sent.2 (fresh index block rfl) shape.symm (by simp)
          | eot =>
            cases shape
            exact .short (by decide)
        · rw [not_or] at active
          rw [@Receiver.held_inactive (link.receiver.buffered (some byte)) active.1 active.2]
          exact .short (by rw [List.length_nil]; omega)
      · simp [Receiver.buffered, uartBuff, Receiver.uart_of_held (.inl entry) nothing,
          UART_BUF_SIZE]

theorem afterPoll {reading : List UInt8} (bounded : receiver.FrameBounded)
    (entry : receiver.xmState ≠ .entry)
    (uart : receiver.xmState.receiving = true → receiver.uart.bytes.length ≤ 1 ∨ reading = [])
    (delivers : receiver.callbacks.filterMap Callback.payload = payloads)
    (acks : receiver.sent.count XM_FRAME_ACK = payloads.length)
    (aligned : Aligned file receiver.held reading link.position (link.delivered ++ payloads).length)
    (inOrder : link.delivered ++ payloads <+: file.map Block.bytes) (queued : queue ⊆ link.queue) :
    (link.afterPoll reading queue receiver).Synced file := by
  subst delivers
  refine ⟨⟨bounded.offset, bounded.uart⟩, fun isEntry => absurd isEntry entry, uart, ⟨rfl, rfl⟩,
    aligned, fun index block member => synced.queue index block (queued member), ?_, inOrder⟩
  have position := synced.acks
  simp only [Link.afterPoll, List.count_append, List.length_append]
  omega

theorem next (stored : file[index]? = some block) (current : index ≤ link.position)
    (fresh : link.delivered.length ≤ index) :
    link.delivered ++ [block.bytes] <+: file.map Block.bytes := by
  have position := synced.acks
  have next : index = link.delivered.length := by omega
  subst next
  obtain ⟨inside, same⟩ := List.getElem?_eq_some_iff.mp stored
  have extended := List.concat_get_prefix synced.delivered (by rwa [List.length_map])
  rwa [List.get_eq_getElem, List.getElem_map, same] at extended

section

variable (timestamp : Int32) {recved : Option UInt8} {reading : List UInt8}
  {queue : List Transmission} (queued : queue ⊆ link.queue)
  (aligned : Aligned file (link.receiver.buffered recved).held reading link.position
    link.delivered.length)

include queued aligned

theorem menuDownload_idle (receiving : link.receiver.xmState.receiving = false)
    (entry : link.receiver.xmState = .entry →
      (link.receiver.buffered recved).uart.bytes.length ≤ 1 ∨ reading = []) :
    ∃ receiver, Spl.menuDownload timestamp recved link.receiver = .ok receiver ∧
      (link.afterPoll reading queue receiver).Synced file := by
  obtain ⟨noCallbacks, noReplies⟩ := synced.silent
  have delivered := synced.delivered
  rw [← List.append_nil link.delivered] at aligned delivered
  obtain ⟨next, returned, uart, sent, states⟩ :=
    @xModemFSM_idle timestamp (link.receiver.buffered recved) receiving
  have bounded := @Receiver.FrameBounded.step _ next synced.bounded (.poll timestamp recved)
    returned
  have silent : next.callbacks.filterMap Callback.payload = [] := by
    rcases states with ⟨_, _, _, calls⟩ | ⟨_, _, _, calls⟩ <;>
      rw [calls, Receiver.buffered, noCallbacks] <;> rfl
  have acks : next.sent.count XM_FRAME_ACK = 0 := by
    rw [sent]
    change link.receiver.sent.count _ = 0
    rw [noReplies]
    rfl
  refine ⟨next, returned, ?_⟩
  rcases states with ⟨isEntry, waits, start, _⟩ | ⟨_, stops, _⟩
  · have held : next.held = (link.receiver.buffered recved).held := by
      change link.receiver.xmState = .entry at isEntry
      rw [Receiver.held, Receiver.held, waits, start, uart]
      simp [Receiver.buffered, isEntry]
    exact synced.afterPoll bounded (by simp [waits]) (fun _ => uart ▸ entry isEntry) silent acks
      (held ▸ aligned) delivered queued
  · have held : next.held = [] := by
      rw [Receiver.held, stops]
    exact synced.afterPoll bounded (by simp [stops]) (by simp [stops, XmodemState.receiving])
      silent acks (held ▸ aligned.drop _) delivered queued

theorem menuDownload_receiving (receiving : link.receiver.xmState.receiving = true) :
    ∃ receiver, Spl.menuDownload timestamp recved link.receiver = .ok receiver ∧
      (link.afterPoll reading queue receiver).Synced file := by
  obtain ⟨noCallbacks, noReplies⟩ := synced.silent
  have delivered := synced.delivered
  rw [← List.append_nil link.delivered] at aligned delivered
  have length := @Receiver.length_held (link.receiver.buffered recved) receiving
    synced.bounded.offset
  have inside := aligned.length_le
  rw [length] at inside
  obtain ⟨read, next, returned, polled, offset, contents, state, callbacks, sent⟩ :=
    menuDownload_inside timestamp receiving inside
  have bounded := @Receiver.FrameBounded.step _ next synced.bounded (.poll timestamp recved)
    returned
  have held : read.frame.toList.take read.frameOffset.toNat =
      (link.receiver.buffered recved).held := by
    rw [contents, @Receiver.held_receiving (link.receiver.buffered recved) receiving]
    rfl
  refine ⟨next, returned, ?_⟩
  cases polled with
  | accepted checked transmit dropped drained cans calls acks =>
    have full := le_frameOffset_of_checkSohFrame checked
    have heldLength := congrArg List.length held
    rw [List.length_take, Vector.length_toList] at heldLength
    cases aligned with
    | short length => omega
    | inFrame index block stored current fresh bytes _ =>
      have frameLength := congrArg List.length bytes
      rw [List.length_append, block.length_frame] at frameLength
      have nothing : reading = [] := List.length_eq_zero_iff.mp (by omega)
      subst nothing
      have whole : read.frame.toList = block.frame index := by
        rw [← bytes, List.append_nil, ← held, List.take_of_length_le]
        rw [Vector.length_toList]
        exact full
      have payloads : next.callbacks.filterMap Callback.payload = [block.bytes] := by
        rw [calls, callbacks, noCallbacks, datas_of_frame whole, List.nil_append,
          List.filterMap_append, filterMap_payload (.inl cans)]
        rfl
      rw [sent, noReplies] at acks
      have empty : next.held = [] := by
        rw [Receiver.held, transmit, dropped, drained]
        rfl
      exact synced.afterPoll bounded (by simp [transmit]) (fun _ => .inr rfl) payloads acks
        (.short (by rw [empty]; decide))
        (synced.next stored current (by simpa using fresh)) queued
  | rejected rejected calls =>
    have payloads : next.callbacks.filterMap Callback.payload = [] := by
      rw [rejected.calls, callbacks, noCallbacks, List.nil_append]
      exact filterMap_payload (calls.imp_right And.left)
    have acks := rejected.acks
    rw [sent, noReplies] at acks
    refine synced.afterPoll bounded ?_ (fun _ => .inl (by rw [rejected.uart]; decide)) payloads
      acks ?_ delivered queued
    · rcases rejected.state with same | exits
      · rw [same, state]
        intro isEntry
        rw [isEntry] at receiving
        cases receiving
      · simp [exits]
    · rcases Receiver.held_drained rejected.uart with nothing | kept
      · rw [nothing]
        exact aligned.drop _
      · rw [kept]
        rcases rejected.frame with start | ⟨sameOffset, sameFrame⟩
        · rw [start]
          exact aligned.drop _
        · rw [sameOffset, sameFrame, held]
          exact aligned

theorem menuDownload (entry : link.receiver.xmState = .entry →
      (link.receiver.buffered recved).uart.bytes.length ≤ 1 ∨ reading = []) :
    ∃ receiver, Spl.menuDownload timestamp recved link.receiver = .ok receiver ∧
      (link.afterPoll reading queue receiver).Synced file := by
  cases receiving : link.receiver.xmState.receiving with
  | false => exact synced.menuDownload_idle timestamp queued aligned receiving entry
  | true => exact synced.menuDownload_receiving timestamp queued aligned receiving

end

theorem step {event : LinkEvent} (inStep : event.inStep link = true) :
    ∃ next, link.step file event = .ok next ∧ next.Synced file := by
  cases event with
  | send => exact ⟨_, rfl, synced.send⟩
  | takeReply => exact ⟨_, rfl, synced.takeReply⟩
  | loseReply index => exact ⟨_, rfl, synced.loseReply index⟩
  | poll timestamp arrives =>
    simp only [Link.step, Link.poll]
    by_cases stopped : link.receiver.xmState = .stop
    · rw [if_pos stopped]
      exact ⟨link, rfl, synced⟩
    · rw [if_neg stopped]
      cases arrives with
      | false =>
        obtain ⟨receiver, returned, kept⟩ := @menuDownload file link synced timestamp none
          link.reading link.queue (List.Subset.refl _) synced.aligned
          (fun entry => .inr (synced.entry entry))
        simp only [Bool.false_eq_true, if_false, returned]
        exact ⟨_, rfl, kept⟩
      | true =>
        obtain ⟨recved, reading, queue, read, queued, aligned, entry⟩ := synced.nextByte inStep
        obtain ⟨receiver, returned, kept⟩ := synced.menuDownload timestamp queued aligned entry
        simp only [if_true, read, returned]
        exact ⟨_, rfl, kept⟩

end

theorem start (bounded : receiver.FrameBounded) : (Link.start receiver).Synced file where
  bounded := ⟨bounded.offset, fun receiving => by cases receiving⟩
  entry _ := rfl
  uart _ := .inr rfl
  silent := ⟨rfl, rfl⟩
  aligned := by
    apply Aligned.short
    have fits := receiver.uart.fits
    simp only [UART_BUF_SIZE] at fits
    change receiver.uart.bytes.length + 0 < 128 + 5
    omega
  queue _ _ member := by cases member
  acks := Nat.le_refl 0
  delivered := List.nil_prefix

end Link.Synced

/-- In every run that reads each transmission from its first byte on, and no
frame of a block that was delivered before, the payloads delivered so far are
the first blocks of the file. The next event in step returns. -/
theorem deliveries_in_order (file : List Block) {receiver : Receiver}
    (bounded : receiver.FrameBounded) {events : List LinkEvent} {last : Link}
    (run : Run (InStepLink file) (Link.start receiver) events last) :
    last.delivered <+: file.map Block.bytes ∧
      ∀ event : LinkEvent, event.inStep last = true → ∃ next, last.step file event = .ok next := by
  have synced : last.Synced file := by
    apply @Run.invariant _ _ (InStepLink file) (Link.Synced file) _ _ _ _ run (.start bounded)
    intro first event next stepped kept
    obtain ⟨after, returned, keptAfter⟩ := kept.step stepped.1
    cases returned.symm.trans stepped.2
    exact keptAfter
  refine ⟨synced.delivered, ?_⟩
  intro event inStep
  obtain ⟨next, returned, _⟩ := synced.step inStep
  exact ⟨next, returned⟩

def zeroBlock : Block := ⟨List.replicate XMODEM_DATA_SIZE 0, List.length_replicate⟩

/-- The receiver asks for the file, and the frame arrives. -/
def cleanEvents : List LinkEvent :=
  [.poll 0 false, .poll 1000 false, .takeReply, .send] ++ List.replicate 133 (.poll 1000 true)

/-- The ACK is lost, and the sender sends the frame again. -/
def lostAckEvents : List LinkEvent :=
  cleanEvents ++ [.loseReply 0, .send] ++ List.replicate 133 (.poll 1000 true)

theorem deliveries_in_order_once :
    ∃ last, Run (InStepLink [zeroBlock]) (Link.start Receiver.powerOn) cleanEvents last ∧
      last.delivered = [zeroBlock.bytes] ∧
      last.delivered <+: [zeroBlock].map Block.bytes := by
  obtain ⟨last, executed, delivers⟩ : ∃ last, cleanEvents.foldlM (fun link event =>
        if event.inStep link then link.step [zeroBlock] event else .error .diverges)
        (Link.start Receiver.powerOn) = .ok last ∧ last.delivered = [zeroBlock.bytes] :=
    Exec.Returns.exists (by decide +kernel)
  have run : Run (InStepLink [zeroBlock]) (Link.start Receiver.powerOn) cleanEvents last := by
    apply (Run.of_foldlM executed).mono
    intro first event next stepped
    split at stepped
    · rename_i inStep
      exact ⟨inStep, stepped⟩
    · cases stepped
  exact ⟨last, run, delivers, (deliveries_in_order [zeroBlock] Receiver.powerOn_frameBounded run).1⟩

/-- One lost ACK delivers the only block of the file twice. -/
theorem lost_ack_delivers_twice :
    ∃ last, Run (fun first event next => first.step [zeroBlock] event = .ok next)
        (Link.start Receiver.powerOn) lostAckEvents last ∧
      last.delivered = [zeroBlock.bytes, zeroBlock.bytes] ∧
      ¬ last.delivered <+: [zeroBlock].map Block.bytes := by
  obtain ⟨last, executed, delivers⟩ : ∃ last, lostAckEvents.foldlM (Link.step [zeroBlock])
        (Link.start Receiver.powerOn) = .ok last ∧
      last.delivered = [zeroBlock.bytes, zeroBlock.bytes] :=
    Exec.Returns.exists (by decide +kernel)
  refine ⟨last, .of_foldlM executed, delivers, ?_⟩
  intro inOrder
  have length := inOrder.length_le
  rw [delivers] at length
  simp at length

end UBootV210.Spl
