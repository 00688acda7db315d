import UBootV210.Foundation.Run
import UBootV210.Spl.Xmodem

/-! # Polls of the XMODEM receiver

What one poll does, whatever it reads, and the bound on the frame buffer that
follows for whole downloads. -/

namespace UBootV210.Spl

theorem take_set_succ {offset : Nat} {bytes : List UInt8} (inside : offset < bytes.length)
    (byte : UInt8) : (bytes.set offset byte).take (offset + 1) = bytes.take offset ++ [byte] := by
  rw [List.take_add_one, List.take_set_of_le (Nat.le_refl offset)]
  simp [inside]

theorem copyBytes_inside (frame : Frame) {offset : Nat}
    (inside : offset + bytes.length ≤ XMODEM_SOH_FRAME_SIZE) :
    ∃ copied, copyBytes frame offset bytes = .ok copied ∧
      copied.toList.take (offset + bytes.length) = frame.toList.take offset ++ bytes := by
  induction bytes generalizing frame offset with
  | nil => exact ⟨frame, rfl, by simp⟩
  | cons byte bytes induction =>
    rw [List.length_cons] at inside
    have here : offset < XMODEM_SOH_FRAME_SIZE := by omega
    obtain ⟨copied, rest, contents⟩ :=
      @induction (frame.set offset byte here) (offset + 1) (by omega)
    refine ⟨copied, ?_, ?_⟩
    · rw [copyBytes, dif_pos here]
      exact rest
    · rw [Vector.toList_set, take_set_succ (by simpa using here)] at contents
      rw [List.length_cons, Nat.add_comm bytes.length 1, ← Nat.add_assoc, contents]
      simp

theorem copyBytes_outside (frame : Frame) {offset : Nat} {bytes : List UInt8}
    (nonempty : bytes ≠ []) (outside : XMODEM_SOH_FRAME_SIZE < offset + bytes.length) :
    copyBytes frame offset bytes = .error .outOfBounds := by
  induction bytes generalizing frame offset with
  | nil => exact absurd rfl nonempty
  | cons byte bytes induction =>
    rw [List.length_cons] at outside
    rw [copyBytes]
    split
    · apply induction
      · rintro rfl
        rw [List.length_nil] at outside
        omega
      · omega
    · rfl

variable {receiver : Receiver}

theorem getData_empty (drained : receiver.uart = .empty) : getData receiver = .ok receiver := by
  cases receiver
  cases drained
  simp [getData, UartBuffer.empty, copyBytes, Except.map]

/-! ## One poll -/

def Callback.payload : Callback → Option (List UInt8)
  | .soh _ buffer => some buffer
  | _ => none

theorem filterMap_payload {made : List Callback}
    (calls : (∀ callback ∈ made, callback = .can) ∨ made = [.eot]) :
    made.filterMap Callback.payload = [] := by
  rcases calls with cans | rfl
  · rw [List.filterMap_eq_nil_iff]
    intro callback member
    rw [cans callback member]
    rfl
  · rfl

/-- Nothing was accepted: the frame was kept or dropped, and neither a payload
nor an ACK went out. -/
structure Rejected (made : List Callback) (read next : Receiver) : Prop where
  state : next.xmState = read.xmState ∨ next.xmState = .exit
  frame : next.frameOffset = 0 ∨ next.frameOffset = read.frameOffset ∧ next.frame = read.frame
  uart : next.uart = .empty
  calls : next.callbacks = read.callbacks ++ made
  acks : next.sent.count XM_FRAME_ACK = read.sent.count XM_FRAME_ACK

theorem Rejected.refl (drained : receiver.uart = .empty) : Rejected [] receiver receiver :=
  ⟨.inl rfl, .inr ⟨rfl, rfl⟩, drained, (List.append_nil _).symm, rfl⟩

theorem Rejected.trans (head : Rejected made first middle)
    (tail : Rejected more middle last) : Rejected (made ++ more) first last := by
  refine ⟨?_, ?_, tail.uart, ?_, tail.acks.trans head.acks⟩
  · rcases tail.state with same | exits
    · rw [same]
      exact head.state
    · exact .inr exits
  · rcases tail.frame with dropped | ⟨offset, frame⟩
    · exact .inl dropped
    · rw [offset, frame]
      exact head.frame
  · rw [tail.calls, head.calls, List.append_assoc]

variable {next : Receiver}

theorem Rejected.exit {read : Receiver} (rejected : Rejected made read next) :
    Rejected made read { next with xmState := .exit } :=
  ⟨.inr rfl, rejected.frame, rejected.uart, rejected.calls, rejected.acks⟩

inductive Polled (read next : Receiver) : Prop
  | accepted {made : List Callback} (checked : checkSohFrame read.frame read.frameOffset = true)
      (state : next.xmState = .transmit)
      (frameOffset : next.frameOffset = 0) (uart : next.uart = .empty)
      (cans : ∀ callback ∈ made, callback = .can)
      (calls : next.callbacks = read.callbacks ++ made ++ [.soh read.frame.pktNum read.frame.datas])
      (acks : next.sent.count XM_FRAME_ACK = read.sent.count XM_FRAME_ACK + 1)
  | rejected {made : List Callback} (rejected : Rejected made read next)
      (calls : (∀ callback ∈ made, callback = .can) ∨ made = [.eot] ∧ next.xmState = .exit)

section

variable (timestamp : Int32) {receiver read : Receiver}

theorem resendNcg_rejected (drained : receiver.uart = .empty) :
    Rejected [] receiver (resendNcg timestamp receiver) := by
  unfold resendNcg
  split
  · dsimp only
    split
    · exact ⟨.inr rfl, .inr ⟨rfl, rfl⟩, drained, (List.append_nil _).symm, rfl⟩
    · refine ⟨.inl rfl, .inl rfl, drained, (List.append_nil _).symm, ?_⟩
      simp [Receiver.putData, dealSohFrameTimeout, List.count_append, XM_FRAME_NCG, XM_FRAME_ACK]
  · exact .refl drained

theorem resendNak_rejected (drained : receiver.uart = .empty) :
    Rejected [] receiver (resendNak timestamp receiver) := by
  unfold resendNak
  split
  · dsimp only
    split
    · exact ⟨.inr rfl, .inl rfl, drained, (List.append_nil _).symm, rfl⟩
    · refine ⟨.inl rfl, .inl rfl, drained, (List.append_nil _).symm, ?_⟩
      simp [Receiver.putData, dealSohFrameTimeout, List.count_append, XM_FRAME_NAK, XM_FRAME_ACK]
  · exact .refl drained

theorem getData_kept (got : getData receiver = .ok read) : read.uart = .empty ∧
    read.callbacks = receiver.callbacks ∧ read.xmState = receiver.xmState := by
  obtain ⟨frame, _, rfl⟩ := Exec.map_eq_ok got
  exact ⟨rfl, rfl, rfl⟩

def Receiver.AtEot (receiver : Receiver) : Prop :=
  receiver.frameOffset = 1 ∧ receiver.frame.kind = XM_FRAME_EOT

theorem Rejected.not_atEot (rejected : Rejected made read next) (other : ¬ read.AtEot) :
    ¬ next.AtEot := by
  rintro ⟨offset, kind⟩
  rcases rejected.frame with dropped | ⟨sameOffset, sameFrame⟩
  · cases dropped.symm.trans offset
  · exact other ⟨sameOffset ▸ offset, sameFrame ▸ kind⟩

theorem dealExceptionFrame_eot (got : getData receiver = .ok read) (eot : read.AtEot) :
    ∃ next, dealExceptionFrame receiver = .ok (XM_FRAME_EOT, next) ∧ Rejected [.eot] read next := by
  simp only [dealExceptionFrame, got, bind, Except.bind, if_pos eot.1, if_pos eot.2]
  exact ⟨_, rfl, .inl rfl, .inl rfl, (getData_kept got).1, rfl, rfl⟩

theorem dealExceptionFrame_rejected (got : getData receiver = .ok read) (other : ¬ read.AtEot) :
    ∃ kind next made, dealExceptionFrame receiver = .ok (kind, next) ∧ kind ≠ XM_FRAME_EOT ∧
      Rejected made read next ∧ ∀ callback ∈ made, callback = .can := by
  have drained := (getData_kept got).1
  simp only [dealExceptionFrame, got, bind, Except.bind]
  split
  · rename_i single
    rw [if_neg fun eot => other ⟨single, eot⟩]
    split
    · exact ⟨_, _, [.can], rfl, by decide, ⟨.inl rfl, .inl rfl, drained, rfl, rfl⟩, by simp⟩
    · exact ⟨_, _, [], rfl, by decide, .refl drained, nofun⟩
  · exact ⟨_, _, [], rfl, by decide, .refl drained, nofun⟩

theorem dealSohFrame_polled (got : getData receiver = .ok read) (head : Rejected made first read)
    (cans : ∀ callback ∈ made, callback = .can) {otherwise : Int32 → Receiver → Receiver}
    (resends : ∀ {receiver : Receiver}, receiver.uart = .empty →
      Rejected [] receiver (otherwise timestamp receiver)) :
    ∃ accepted next, dealSohFrame receiver = .ok (accepted, next) ∧
      Polled first (if accepted then acknowledge timestamp next else otherwise timestamp next) := by
  simp only [dealSohFrame, got, bind, Except.bind]
  cases checked : checkSohFrame read.frame read.frameOffset with
  | true =>
    rcases head.frame with dropped | ⟨offset, frame⟩
    · rw [dropped] at checked
      cases checked
    · rw [offset, frame] at checked
      refine ⟨_, _, rfl, .accepted checked rfl rfl head.uart cans ?_ ?_⟩
      · rw [← head.calls, ← frame]
        rfl
      · simp [acknowledge, Receiver.putData, Receiver.xmCallback, head.acks]
  | false => exact ⟨_, _, rfl,
      .rejected (head.trans (resends head.uart)) (.inl (by simpa using cans))⟩

def XmodemState.receiving : XmodemState → Bool
  | .waitTrans | .transmit => true
  | _ => false

/-- While it receives, a poll returns whenever its bytes fit into the frame. -/
theorem xModemFSM_receiving (receiving : receiver.xmState.receiving = true)
    (got : getData receiver = .ok read) :
    ∃ next, xModemFSM timestamp receiver = .ok next ∧ Polled read next := by
  cases state : receiver.xmState with
  | entry => simp [state, XmodemState.receiving] at receiving
  | exit => simp [state, XmodemState.receiving] at receiving
  | stop => simp [state, XmodemState.receiving] at receiving
  | waitTrans =>
    obtain ⟨accepted, next, dealt, polled⟩ :=
      dealSohFrame_polled timestamp got (.refl (getData_kept got).1) nofun
        (resendNcg_rejected timestamp)
    refine ⟨_, ?_, polled⟩
    simp only [xModemFSM, state, dealt, bind, Except.bind]
    rfl
  | transmit =>
    by_cases eot : read.AtEot
    · obtain ⟨next, dealt, rejected⟩ := dealExceptionFrame_eot got eot
      simp only [xModemFSM, state, dealt, bind, Except.bind, if_true]
      exact ⟨_, rfl, .rejected rejected.exit (.inr ⟨rfl, rfl⟩)⟩
    · obtain ⟨firstKind, first, made, firstDealt, notEot, firstRejected, canFirst⟩ :=
        dealExceptionFrame_rejected got eot
      obtain ⟨secondKind, second, more, secondDealt, _, secondRejected, canSecond⟩ :=
        dealExceptionFrame_rejected (getData_empty firstRejected.uart) (firstRejected.not_atEot eot)
      have rejected := firstRejected.trans secondRejected
      have cans := List.forall_mem_append.mpr ⟨canFirst, canSecond⟩
      obtain ⟨accepted, next, dealt, polled⟩ := dealSohFrame_polled timestamp
        (getData_empty secondRejected.uart) rejected cans (resendNak_rejected timestamp)
      simp only [xModemFSM, state, firstDealt, secondDealt, dealt, bind, Except.bind, if_neg notEot]
      split
      · exact ⟨_, rfl, .rejected rejected.exit (.inl cans)⟩
      · exact ⟨_, rfl, polled⟩

theorem xModemFSM_fault (receiving : receiver.xmState.receiving = true) {fault : Fault}
    (got : getData receiver = .error fault) :
    xModemFSM timestamp receiver = .error fault := by
  cases state : receiver.xmState with
  | entry => simp [state, XmodemState.receiving] at receiving
  | exit => simp [state, XmodemState.receiving] at receiving
  | stop => simp [state, XmodemState.receiving] at receiving
  | waitTrans => simp [xModemFSM, state, dealSohFrame, got, bind, Except.bind]
  | transmit => simp [xModemFSM, state, dealExceptionFrame, got, bind, Except.bind]

theorem xModemFSM_idle (idle : receiver.xmState.receiving = false) :
    ∃ next, xModemFSM timestamp receiver = .ok next ∧ next.uart = receiver.uart ∧
      next.sent = receiver.sent ∧
      (receiver.xmState = .entry ∧ next.xmState = .waitTrans ∧ next.frameOffset = 0 ∧
          next.callbacks = receiver.callbacks ++ [.entry] ∨
        receiver.xmState ≠ .entry ∧ next.xmState = .stop ∧
          next.frameOffset = receiver.frameOffset ∧ next.callbacks = receiver.callbacks) := by
  cases state : receiver.xmState with
  | entry =>
    simp only [xModemFSM, state]
    exact ⟨_, rfl, rfl, rfl, .inl ⟨trivial, rfl, rfl, rfl⟩⟩
  | exit =>
    simp only [xModemFSM, state]
    exact ⟨_, rfl, rfl, rfl, .inr ⟨by simp, rfl, rfl, rfl⟩⟩
  | stop =>
    simp only [xModemFSM, state]
    exact ⟨_, rfl, rfl, rfl, .inr ⟨by simp, state, rfl, rfl⟩⟩
  | waitTrans => simp [state, XmodemState.receiving] at idle
  | transmit => simp [state, XmodemState.receiving] at idle

end

/-! ## Whole downloads -/

inductive MenuEvent
  | download
  | poll (timestamp : Int32) (recved : Option UInt8)

def Receiver.step (receiver : Receiver) : MenuEvent → Exec Receiver
  | .download => .ok (doXmodemDownloadInit receiver)
  | .poll timestamp recved => menuDownload timestamp recved receiver

def Receiver.powerOn : Receiver where
  xmState := .entry
  timestampNcgSentPrev := 0
  ncgSendRetryTimes := 0
  timestampSohRecvPrev := 0
  sohNakRetryTimes := 0
  frameOffset := 0
  frame := Vector.replicate XMODEM_SOH_FRAME_SIZE 0
  uart := .empty
  callbacks := []
  sent := []

def MenuEvent.Fits (receiver : Receiver) : MenuEvent → Prop
  | .download => True
  | .poll _ recved => receiver.xmState.receiving = true → recved.isSome = true →
      receiver.frameOffset.toNat ≠ XMODEM_SOH_FRAME_SIZE

def FittingStep (first : Receiver) (event : MenuEvent) (next : Receiver) : Prop :=
  event.Fits first ∧ first.step event = .ok next

/-- Only the first poll that receives may find more than one byte in the buffer
of the UART. -/
structure Receiver.FrameBounded (receiver : Receiver) : Prop where
  offset : receiver.frameOffset.toNat ≤ XMODEM_SOH_FRAME_SIZE
  uart : receiver.xmState.receiving = true → receiver.uart = .empty ∨ receiver.frameOffset = 0

def Receiver.buffered (receiver : Receiver) (recved : Option UInt8) : Receiver :=
  { receiver with uart := recved.elim receiver.uart (uartBuff receiver.uart) }

theorem getData_inside {receiver : Receiver}
    (inside : receiver.frameOffset.toNat + receiver.uart.bytes.length ≤ XMODEM_SOH_FRAME_SIZE) :
    ∃ read, getData receiver = .ok read ∧
      read.frameOffset.toNat = receiver.frameOffset.toNat + receiver.uart.bytes.length ∧
      read.frame.toList.take read.frameOffset.toNat =
        receiver.frame.toList.take receiver.frameOffset.toNat ++ receiver.uart.bytes ∧
      read.xmState = receiver.xmState ∧ read.callbacks = receiver.callbacks ∧
      read.sent = receiver.sent := by
  obtain ⟨copied, returned, contents⟩ := copyBytes_inside receiver.frame inside
  have offset : (receiver.frameOffset + UInt8.ofNat receiver.uart.bytes.length).toNat =
      receiver.frameOffset.toNat + receiver.uart.bytes.length := by
    rw [UInt8.toNat_add, UInt8.toNat_ofNat', Nat.add_mod_mod]
    apply Nat.mod_eq_of_lt
    simp only [XMODEM_SOH_FRAME_SIZE, XMODEM_DATA_SIZE] at inside
    omega
  rw [getData, returned]
  refine ⟨_, rfl, offset, ?_, rfl, rfl, rfl⟩
  rw [offset]
  exact contents

variable {recved : Option UInt8}

theorem menuDownload_inside (timestamp : Int32) (receiving : receiver.xmState.receiving = true)
    (inside : receiver.frameOffset.toNat + (receiver.buffered recved).uart.bytes.length ≤
      XMODEM_SOH_FRAME_SIZE) :
    ∃ read next, menuDownload timestamp recved receiver = .ok next ∧ Polled read next ∧
      read.frameOffset.toNat =
        receiver.frameOffset.toNat + (receiver.buffered recved).uart.bytes.length ∧
      read.frame.toList.take read.frameOffset.toNat =
        receiver.frame.toList.take receiver.frameOffset.toNat ++
          (receiver.buffered recved).uart.bytes ∧
      read.xmState = receiver.xmState ∧ read.callbacks = receiver.callbacks ∧
      read.sent = receiver.sent := by
  obtain ⟨read, got, facts⟩ := @getData_inside (receiver.buffered recved) inside
  obtain ⟨next, returned, polled⟩ :=
    @xModemFSM_receiving timestamp (receiver.buffered recved) read receiving got
  exact ⟨read, next, returned, polled, facts⟩

theorem menuDownload_polled (receiving : receiver.xmState.receiving = true)
    (returned : menuDownload timestamp recved receiver = .ok next) :
    ∃ read : Receiver, read.xmState = receiver.xmState ∧ read.callbacks = receiver.callbacks ∧
      Polled read next := by
  cases got : getData (receiver.buffered recved) with
  | error fault =>
    have failed := @xModemFSM_fault timestamp (receiver.buffered recved) receiving fault got
    cases failed.symm.trans returned
  | ok read =>
    obtain ⟨after, polled, ends⟩ :=
      @xModemFSM_receiving timestamp (receiver.buffered recved) read receiving got
    cases polled.symm.trans returned
    obtain ⟨_, calls, state⟩ := getData_kept got
    exact ⟨read, state, calls, ends⟩

theorem menuDownload_outside (timestamp : Int32) (receiving : receiver.xmState.receiving = true)
    (bounded : receiver.frameOffset.toNat ≤ XMODEM_SOH_FRAME_SIZE)
    (outside : ¬ receiver.frameOffset.toNat + (receiver.buffered recved).uart.bytes.length ≤
      XMODEM_SOH_FRAME_SIZE) :
    menuDownload timestamp recved receiver = .error .outOfBounds := by
  apply @xModemFSM_fault timestamp (receiver.buffered recved) receiving .outOfBounds
  have copied := @copyBytes_outside receiver.frame receiver.frameOffset.toNat
    (receiver.buffered recved).uart.bytes (by
      intro nothing
      rw [nothing, List.length_nil] at outside
      omega) (by omega)
  change (copyBytes receiver.frame receiver.frameOffset.toNat _).map _ = _
  rw [copied]
  rfl

theorem Polled.frameOffset_le {read : Receiver} (polled : Polled read next)
    (bounded : read.frameOffset.toNat ≤ XMODEM_SOH_FRAME_SIZE) :
    next.frameOffset.toNat ≤ XMODEM_SOH_FRAME_SIZE ∧ next.uart = .empty := by
  cases polled with
  | accepted _ _ frameOffset uart =>
    rw [frameOffset]
    exact ⟨by decide, uart⟩
  | rejected rejected =>
    refine ⟨?_, rejected.uart⟩
    rcases rejected.frame with dropped | ⟨offset, _⟩
    · rw [dropped]
      decide
    · rw [offset]
      exact bounded

theorem Receiver.FrameBounded.inside_iff (bounded : receiver.FrameBounded)
    (receiving : receiver.xmState.receiving = true) :
    receiver.frameOffset.toNat + (receiver.buffered recved).uart.bytes.length ≤
        XMODEM_SOH_FRAME_SIZE ↔
      (recved.isSome = true → receiver.frameOffset.toNat ≠ XMODEM_SOH_FRAME_SIZE) := by
  have offset := bounded.offset
  rcases bounded.uart receiving with drained | start
  · cases recved with
    | none => simpa [buffered, drained, UartBuffer.empty] using offset
    | some byte =>
      have single : (uartBuff .empty byte).bytes = [byte] := rfl
      simp only [buffered, Option.elim_some, drained, single, List.length_singleton,
        Option.isSome_some, true_implies]
      omega
  · have fits := (receiver.buffered recved).uart.fits
    rw [start]
    simp only [XMODEM_SOH_FRAME_SIZE, XMODEM_DATA_SIZE, UART_BUF_SIZE] at fits ⊢
    refine iff_of_true ?_ (fun _ => by decide)
    change 0 + _ ≤ _
    omega

theorem Receiver.FrameBounded.step_iff (bounded : receiver.FrameBounded) (event : MenuEvent) :
    (∃ next, receiver.step event = .ok next) ↔ event.Fits receiver := by
  cases event with
  | download => exact iff_of_true ⟨_, rfl⟩ trivial
  | poll timestamp recved =>
    cases receiving : receiver.xmState.receiving with
    | false =>
      obtain ⟨next, returned, _⟩ :=
        @xModemFSM_idle timestamp (receiver.buffered recved) receiving
      refine iff_of_true ⟨next, returned⟩ fun active => ?_
      rw [receiving] at active
      cases active
    | true =>
      have fits : (MenuEvent.poll timestamp recved).Fits receiver ↔ _ :=
        (imp_iff_right receiving).trans (bounded.inside_iff receiving).symm
      rw [fits]
      constructor
      · rintro ⟨next, returned⟩
        by_contra outside
        cases (menuDownload_outside timestamp receiving bounded.offset outside).symm.trans returned
      · intro inside
        obtain ⟨_, next, returned, _⟩ := menuDownload_inside timestamp receiving inside
        exact ⟨next, returned⟩

theorem Receiver.FrameBounded.step {receiver next : Receiver} (bounded : receiver.FrameBounded)
    {event : MenuEvent} (stepped : receiver.step event = .ok next) : next.FrameBounded := by
  cases event with
  | download =>
    cases stepped
    exact ⟨bounded.offset, fun receiving => by cases receiving⟩
  | poll timestamp recved =>
    cases receiving : receiver.xmState.receiving with
    | false =>
      obtain ⟨after, returned, _, _, offset⟩ :=
        @xModemFSM_idle timestamp (receiver.buffered recved) receiving
      cases returned.symm.trans stepped
      rcases offset with ⟨_, _, start, _⟩ | ⟨_, stopped, kept, _⟩
      · refine ⟨?_, fun _ => .inr start⟩
        rw [start]
        decide
      · refine ⟨?_, fun active => ?_⟩
        · rw [kept]
          exact bounded.offset
        · rw [stopped] at active
          cases active
    | true =>
      have inside : receiver.frameOffset.toNat +
          (receiver.buffered recved).uart.bytes.length ≤ XMODEM_SOH_FRAME_SIZE := by
        by_contra outside
        cases (menuDownload_outside timestamp receiving bounded.offset outside).symm.trans stepped
      obtain ⟨read, after, returned, polled, offset, _⟩ :=
        menuDownload_inside timestamp receiving inside
      cases returned.symm.trans stepped
      have kept := polled.frameOffset_le (offset ▸ inside)
      exact ⟨kept.1, fun _ => .inl kept.2⟩

theorem Receiver.powerOn_frameBounded : Receiver.powerOn.FrameBounded :=
  ⟨by decide, fun _ => .inr rfl⟩

/-- In every run of downloads in which no byte arrives while the frame is full,
the offset stays inside the frame. The next step stays inside exactly when it
meets the same condition. -/
theorem frame_offset_bounded {events : List MenuEvent} {last : Receiver}
    (run : Run FittingStep Receiver.powerOn events last) :
    last.frameOffset.toNat ≤ XMODEM_SOH_FRAME_SIZE ∧
      ∀ event, (∃ next, last.step event = .ok next) ↔ MenuEvent.Fits last event := by
  have bounded : last.FrameBounded :=
    @Run.invariant _ _ FittingStep Receiver.FrameBounded
      (fun stepped kept => kept.step stepped.2) _ _ _ run Receiver.powerOn_frameBounded
  exact ⟨bounded.offset, bounded.step_iff⟩

def frameStartEvents : List MenuEvent :=
  [.download, .poll 0 none, .poll 0 (some 1), .poll 0 (some 1), .poll 0 (some 254)]

theorem frame_offset_bounded_start :
    ∃ last, Run FittingStep Receiver.powerOn frameStartEvents last ∧ last.frameOffset = 3 ∧
      last.frameOffset.toNat ≤ XMODEM_SOH_FRAME_SIZE ∧
      ∃ next, last.step (.poll 0 (some 0)) = .ok next := by
  obtain ⟨last, executed, offset⟩ : ∃ last, frameStartEvents.foldlM (fun receiver event =>
        if receiver.frameOffset.toNat ≠ XMODEM_SOH_FRAME_SIZE then receiver.step event
        else .error .outOfBounds) Receiver.powerOn = .ok last ∧ last.frameOffset = 3 :=
    Exec.Returns.exists (by decide +kernel)
  have run : Run FittingStep Receiver.powerOn frameStartEvents last := by
    apply (Run.of_foldlM executed).mono
    intro first event next stepped
    split at stepped
    case isTrue room =>
      refine ⟨?_, stepped⟩
      cases event with
      | download => trivial
      | poll timestamp recved => exact fun _ _ => room
    · cases stepped
  have bounded := frame_offset_bounded run
  refine ⟨last, run, offset, bounded.1, (bounded.2 (.poll 0 (some 0))).mpr fun _ _ => ?_⟩
  rw [offset]
  decide

/-- A frame of 133 bytes that does not pass the check. -/
def badFrameEvents : List MenuEvent :=
  .download :: .poll 0 none :: List.replicate 133 (.poll 0 (some 0))

/-- The byte after a bad frame is stored behind the end of `xmodem.frame`. -/
theorem frame_overrun :
    ∃ last, Run (fun first event next => first.step event = .ok next) Receiver.powerOn
        badFrameEvents last ∧
      last.frameOffset = 133 ∧ last.step (.poll 0 (some 0)) = .error .outOfBounds := by
  obtain ⟨last, executed, overruns⟩ :
      ∃ last, badFrameEvents.foldlM Receiver.step Receiver.powerOn = .ok last ∧
        last.frameOffset = 133 ∧ last.step (.poll 0 (some 0)) = .error .outOfBounds :=
    Exec.Returns.exists (by decide +kernel)
  exact ⟨last, .of_foldlM executed, overruns⟩

end UBootV210.Spl
