import UBootV210.Spl.XmodemPoll

/-! # Control bytes between two frames

What a poll does with an EOT or a CAN that arrives alone, and what follows when
the transfer has been left. -/

namespace UBootV210.Spl

namespace Receiver

/-- Every poll of a transfer empties the buffer of the UART. -/
def Drained (receiver : Receiver) : Prop := receiver.xmState = .transmit → receiver.uart = .empty

theorem Drained.step {receiver next : Receiver} {event : MenuEvent}
    (stepped : receiver.step event = .ok next) : next.Drained := by
  intro transmit
  cases event with
  | download =>
    cases stepped
    cases transmit
  | poll timestamp recved =>
    cases receiving : receiver.xmState.receiving with
    | false =>
      obtain ⟨after, returned, _, _, states⟩ :=
        @xModemFSM_idle timestamp (receiver.buffered recved) receiving
      cases returned.symm.trans stepped
      rcases states with ⟨_, waits, _⟩ | ⟨_, stopped, _⟩
      · rw [waits] at transmit
        cases transmit
      · rw [stopped] at transmit
        cases transmit
    | true =>
      obtain ⟨read, _, _, polled⟩ := menuDownload_polled receiving stepped
      cases polled with
      | accepted _ _ _ uart => exact uart
      | rejected rejected => exact rejected.uart

theorem drained_of_run
    (run : Run (fun first event next => first.step event = .ok next) powerOn events receiver) :
    receiver.Drained :=
  run.invariant (fun stepped _ => Drained.step stepped) fun _ => rfl

/-! ## The poll that reads the byte -/

theorem frame_nonempty : 0 < XMODEM_SOH_FRAME_SIZE := by decide

def single (receiver : Receiver) (byte : UInt8) : Receiver :=
  { receiver with
    frame := receiver.frame.set 0 byte frame_nonempty
    frameOffset := 1
    uart := .empty }

variable {receiver : Receiver}

theorem getData_single (drained : receiver.uart = .empty) (empty : receiver.frameOffset = 0)
    (byte : UInt8) : getData (receiver.buffered (some byte)) = .ok (receiver.single byte) := by
  cases receiver
  cases drained
  cases empty
  rfl

theorem frameOffset_single : (receiver.single byte).frameOffset = 1 := rfl

theorem kind_single : (receiver.single byte).frame.kind = byte := by
  simp [single, Frame.kind, Vector.get_eq_getElem]

theorem menuDownload_eot (transmit : receiver.xmState = .transmit)
    (drained : receiver.uart = .empty) (empty : receiver.frameOffset = 0) (timestamp : Int32) :
    ∃ next, menuDownload timestamp (some XM_FRAME_EOT) receiver = .ok next ∧
      next.xmState = .exit := by
  have got := getData_single drained empty XM_FRAME_EOT
  have dealt : dealExceptionFrame (receiver.buffered (some XM_FRAME_EOT)) = .ok (XM_FRAME_EOT,
      { (receiver.single XM_FRAME_EOT).xmCallback .eot with frameOffset := 0 }) := by
    rw [dealExceptionFrame, got, Exec.ok_bind, if_pos frameOffset_single, if_pos kind_single]
    rfl
  refine ⟨{ (receiver.single XM_FRAME_EOT).xmCallback .eot with
    frameOffset := 0, xmState := .exit }, ?_, rfl⟩
  change xModemFSM timestamp (receiver.buffered (some XM_FRAME_EOT)) = _
  rw [xModemFSM, show (receiver.buffered (some XM_FRAME_EOT)).xmState = .transmit from transmit]
  simp only [dealt, Exec.ok_bind, if_true]
  rfl

/-- The receiver after the first evaluation of `dealExceptionFrame` took the CAN. -/
def cancelled (receiver : Receiver) : Receiver :=
  { (receiver.single XM_FRAME_CAN).xmCallback .can with frameOffset := 0 }

/-- The second evaluation finds no byte any more, and the transfer goes on as if
nothing had arrived. -/
theorem menuDownload_can (transmit : receiver.xmState = .transmit)
    (drained : receiver.uart = .empty) (empty : receiver.frameOffset = 0) (timestamp : Int32) :
    menuDownload timestamp (some XM_FRAME_CAN) receiver =
      .ok (resendNak timestamp receiver.cancelled) := by
  have got := getData_single drained empty XM_FRAME_CAN
  have first : dealExceptionFrame (receiver.buffered (some XM_FRAME_CAN)) =
      .ok (XM_FRAME_CAN, receiver.cancelled) := by
    rw [dealExceptionFrame, got, Exec.ok_bind, if_pos frameOffset_single, kind_single,
      if_neg (by decide), if_pos rfl]
    rfl
  have nothing : getData receiver.cancelled = .ok receiver.cancelled := getData_empty rfl
  have second : dealExceptionFrame receiver.cancelled =
      .ok (XM_FRAME_UNKOWN, receiver.cancelled) := by
    rw [dealExceptionFrame, nothing, Exec.ok_bind, if_neg (fun one => by cases one)]
    rfl
  have third : dealSohFrame receiver.cancelled = .ok (false, receiver.cancelled) := by
    rw [dealSohFrame, nothing, Exec.ok_bind]
    rfl
  change xModemFSM timestamp (receiver.buffered (some XM_FRAME_CAN)) = _
  rw [xModemFSM, show (receiver.buffered (some XM_FRAME_CAN)).xmState = .transmit from transmit]
  simp only [first, second, third, Exec.ok_bind]
  rfl

/-- The sender has been silent for the time of one NAK after 51 of them. -/
def GivesUp (receiver : Receiver) (timestamp : Int32) : Prop :=
  timestamp - receiver.timestampSohRecvPrev ≥ XM_SOH_RECV_TIMEOUT ∧ receiver.sohNakRetryTimes > 50

instance (receiver : Receiver) (timestamp : Int32) : Decidable (receiver.GivesUp timestamp) :=
  inferInstanceAs (Decidable (_ ∧ _))

theorem resendNak_exit_iff (transmit : receiver.xmState = .transmit) (timestamp : Int32) :
    ((resendNak timestamp receiver).xmState = .exit ↔ receiver.GivesUp timestamp) ∧
      (¬ receiver.GivesUp timestamp → (resendNak timestamp receiver).xmState = .transmit) := by
  rw [resendNak, GivesUp]
  by_cases late : timestamp - receiver.timestampSohRecvPrev ≥ XM_SOH_RECV_TIMEOUT
  · rw [if_pos late]
    by_cases often : receiver.sohNakRetryTimes > 50
    · simp [late, often, dealSohFrameTimeout]
    · simp [late, often, dealSohFrameTimeout, putData, transmit]
  · simp [late, transmit]

/-! ## After the transfer -/

def polls (receiver : Receiver) (inputs : List (Int32 × Option UInt8)) : Exec Receiver :=
  inputs.foldlM (fun receiver input => menuDownload input.1 input.2 receiver) receiver

theorem polls_stopped (stopped : receiver.xmState = .stop) (inputs : List (Int32 × Option UInt8)) :
    ∃ last, receiver.polls inputs = .ok last ∧ last.xmState = .stop ∧
      last.callbacks = receiver.callbacks := by
  induction inputs generalizing receiver with
  | nil => exact ⟨receiver, rfl, stopped, rfl⟩
  | cons input inputs induction =>
    have polled : menuDownload input.1 input.2 receiver = .ok (receiver.buffered input.2) := by
      change xModemFSM input.1 (receiver.buffered input.2) = _
      rw [xModemFSM, show (receiver.buffered input.2).xmState = .stop from stopped]
    obtain ⟨last, run, state, callbacks⟩ := @induction (receiver.buffered input.2) stopped
    refine ⟨last, ?_, state, callbacks⟩
    rw [polls, List.foldlM_cons, polled]
    exact run

theorem polls_left (left : receiver.xmState = .exit) (inputs : List (Int32 × Option UInt8)) :
    ∃ last, receiver.polls inputs = .ok last ∧ (inputs ≠ [] → last.xmState = .stop) ∧
      last.callbacks = receiver.callbacks := by
  cases inputs with
  | nil => exact ⟨receiver, rfl, fun some => absurd rfl some, rfl⟩
  | cons input inputs =>
    have polled : menuDownload input.1 input.2 receiver =
        .ok { receiver.buffered input.2 with xmState := .stop } := by
      change xModemFSM input.1 (receiver.buffered input.2) = _
      rw [xModemFSM, show (receiver.buffered input.2).xmState = .exit from left]
    obtain ⟨last, run, state, callbacks⟩ :=
      @polls_stopped { receiver.buffered input.2 with xmState := .stop } rfl inputs
    refine ⟨last, ?_, fun _ => state, callbacks⟩
    rw [polls, List.foldlM_cons, polled]
    exact run

/-- The poll that reads the byte leaves the transfer; the next one stops the
receiver, and `xmCallback` is not called again. -/
def EndsTransfer (receiver : Receiver) (timestamp : Int32) (byte : UInt8) : Prop :=
  ∃ next, menuDownload timestamp (some byte) receiver = .ok next ∧ next.xmState ≠ .transmit ∧
    ∀ inputs, ∃ last, next.polls inputs = .ok last ∧ (inputs ≠ [] → last.xmState = .stop) ∧
      last.callbacks = next.callbacks

/-- An EOT ends the transfer. A CAN is taken by the test for an EOT and ends it only
when the receiver gives up at the same poll. -/
theorem control_byte_ends_iff {events : List MenuEvent} {receiver : Receiver}
    (run : Run (fun first event next => first.step event = .ok next) powerOn events receiver)
    (transmit : receiver.xmState = .transmit) (empty : receiver.frameOffset = 0)
    (timestamp : Int32) {byte : UInt8} (control : byte = XM_FRAME_EOT ∨ byte = XM_FRAME_CAN) :
    receiver.EndsTransfer timestamp byte ↔ byte = XM_FRAME_EOT ∨ receiver.GivesUp timestamp := by
  have drained := drained_of_run run transmit
  rcases control with eot | can
  · cases eot
    obtain ⟨next, polled, left⟩ := menuDownload_eot transmit drained empty timestamp
    refine iff_of_true ⟨next, polled, ?_, polls_left left⟩ (.inl rfl)
    rw [left]
    exact XmodemState.noConfusion
  · cases can
    have polled := menuDownload_can transmit drained empty timestamp
    have states := @resendNak_exit_iff receiver.cancelled transmit timestamp
    constructor
    · intro ⟨next, returned, leaves, _⟩
      cases polled.symm.trans returned
      by_contra neither
      exact leaves (states.2 fun gives => neither (.inr gives))
    · intro condition
      have gives : receiver.GivesUp timestamp := condition.resolve_left (by decide)
      have left := states.1.mpr gives
      refine ⟨_, polled, ?_, polls_left left⟩
      rw [left]
      exact XmodemState.noConfusion

/-- A download whose first frame of zeros has been accepted. -/
def firstFrameEvents : List MenuEvent :=
  [.download, .poll 0 none] ++
    (XM_FRAME_SOH :: 0x01 :: 0xfe :: List.replicate 130 0).map fun byte => .poll 0 (some byte)

theorem firstFrame_run :
    ∃ receiver, Run (fun first event next => first.step event = .ok next) powerOn
        firstFrameEvents receiver ∧
      receiver.xmState = .transmit ∧ receiver.frameOffset = 0 ∧ ¬ receiver.GivesUp 0 := by
  obtain ⟨receiver, executed, accepted⟩ :
      ∃ receiver, firstFrameEvents.foldlM Receiver.step Receiver.powerOn = .ok receiver ∧
        receiver.xmState = .transmit ∧ receiver.frameOffset = 0 ∧ ¬ receiver.GivesUp 0 :=
    Exec.Returns.exists (by decide +kernel)
  exact ⟨receiver, .of_foldlM executed, accepted⟩

theorem control_byte_ends_iff_eot :
    ∃ receiver, Run (fun first event next => first.step event = .ok next) powerOn
        firstFrameEvents receiver ∧ receiver.EndsTransfer 0 XM_FRAME_EOT := by
  obtain ⟨receiver, run, transmit, empty, _⟩ := firstFrame_run
  exact ⟨receiver, run, (control_byte_ends_iff run transmit empty 0 (.inl rfl)).mpr (.inl rfl)⟩

/-- A CAN between two frames leaves the receiver in the transfer. -/
theorem can_keeps_transmitting :
    ∃ receiver next, Run (fun first event next => first.step event = .ok next) powerOn
        firstFrameEvents receiver ∧
      receiver.xmState = .transmit ∧ receiver.frameOffset = 0 ∧
      menuDownload 0 (some XM_FRAME_CAN) receiver = .ok next ∧ next.xmState = .transmit := by
  obtain ⟨receiver, run, transmit, empty, patient⟩ := firstFrame_run
  have drained := drained_of_run run transmit
  refine ⟨receiver, _, run, transmit, empty, menuDownload_can transmit drained empty 0, ?_⟩
  exact (@resendNak_exit_iff receiver.cancelled transmit 0).2 patient

end Receiver

end UBootV210.Spl
