import UBootV210.Spl.Download
import UBootV210.Spl.XmodemLink

/-! # From the line into the flash

The receiver passes what it accepts to `xmCallback`, which programs the flash. -/

namespace UBootV210.Spl

def Callback.inner : Callback → Bool
  | .soh _ _ | .can => true
  | .entry | .eot => false

/-- What a poll calls back with. -/
inductive PollCalls (before : XmodemState) (made : List Callback) (after : XmodemState) : Prop
  | entry (starts : before = .entry) (made_eq : made = [.entry]) (waits : after = .waitTrans)
  | inner (receiving : before.receiving = true) (started : after ≠ .entry)
      (inner : ∀ callback ∈ made, callback.inner = true)
  | eot (receiving : before.receiving = true) (made_eq : made = [.eot]) (exits : after = .exit)
  | idle (made_eq : made = []) (stops : after = .stop)

variable {receiver next : Receiver}

theorem PollCalls.of_polled {read : Receiver} (receiving : read.xmState.receiving = true)
    (silent : read.callbacks = []) (polled : Polled read next) :
    PollCalls read.xmState next.callbacks next.xmState := by
  cases polled with
  | accepted _ state _ _ cans calls _ =>
    rw [calls, silent, List.nil_append]
    refine .inner receiving (by simp [state])
      (List.forall_mem_append.mpr ⟨?_, by simp [Callback.inner]⟩)
    intro callback member
    rw [cans callback member]
    rfl
  | rejected rejected calls =>
    have made := rejected.calls
    rw [silent, List.nil_append] at made
    rw [made]
    rcases calls with cans | ⟨rfl, exits⟩
    · refine .inner receiving ?_ fun callback member => by rw [cans callback member]; rfl
      intro entry
      rcases rejected.state with same | exits
      · rw [← same, entry] at receiving
        cases receiving
      · cases exits.symm.trans entry
    · exact .eot receiving rfl exits

theorem menuDownload_calls (silent : receiver.callbacks = [])
    (polled : menuDownload timestamp recved receiver = .ok next) :
    PollCalls receiver.xmState next.callbacks next.xmState := by
  cases receiving : receiver.xmState.receiving with
  | false =>
    obtain ⟨after, returned, _, _, states⟩ :=
      @xModemFSM_idle timestamp (receiver.buffered recved) receiving
    cases returned.symm.trans polled
    rcases states with ⟨starts, waits, _, calls⟩ | ⟨_, stops, _, calls⟩
    · exact .entry starts (calls.trans (congrArg (· ++ _) silent)) waits
    · exact .idle (calls.trans silent) stops
  | true =>
    obtain ⟨read, state, calls, ends⟩ := menuDownload_polled receiving polled
    rw [← state] at receiving ⊢
    exact .of_polled receiving (calls.trans silent) ends

/-- The line and the flash, with the calls of `xmCallback` so far. -/
structure Board where
  link : Link
  programmer : Programmer
  passed : List Callback

namespace Board

def start (base : UInt32) (receiver : Receiver) (programmer : Programmer) : Board where
  link := Link.start receiver
  programmer := programmer.downloadInit base
  passed := []

def calls (link : Link) : LinkEvent → Exec (List Callback)
  | .poll timestamp arrives =>
      if link.receiver.xmState = .stop then
        .ok []
      else
        (menuDownload timestamp (if arrives then link.nextByte.1 else none) link.receiver).map
          Receiver.callbacks
  | _ => .ok []

-- The receiver does not look at what the callback did, so the calls of a poll run behind it.
def step (file : List Block) (board : Board) (event : LinkEvent) : Exec Board := do
  let made ← calls board.link event
  let link ← board.link.step file event
  let programmer ← made.foldlM Programmer.xmCallback board.programmer
  return ⟨link, programmer, board.passed ++ made⟩

def InStep (file : List Block) (first : Board) (event : LinkEvent) (next : Board) : Prop :=
  event.inStep first.link = true ∧ first.step file event = .ok next

def image (board : Board) : List UInt8 := board.link.delivered.flatten

/-- The pages that were programmed: those that are full, and one at the end of the file. -/
def Programmed (before : List NandCall) (base : UInt32) (board : Board) : Prop :=
  ∃ made, board.programmer.calls = before ++ made ∧
    (programs made).length = board.image.length / 2048 + board.passed.count .eot ∧
    HoldPages base board.image (programs made)

structure Stored (file : List Block) (before : List NandCall) (base : UInt32) (board : Board) :
    Prop where
  synced : board.link.Synced file
  waiting : board.link.receiver.xmState = .entry → board.link.delivered = [] ∧
    board.passed = [] ∧ board.programmer.nandAddress = base ∧ board.programmer.calls = before
  collected : board.link.receiver.xmState.receiving = true → board.passed.count .eot = 0 ∧
    board.programmer.Collected before base board.image
  programmed : board.Programmed before base

end Board

/-! ## The flash follows the line -/

theorem Programmer.Collected.inner {programmer : Programmer} {made : List Callback}
    (collected : programmer.Collected before base image)
    (inner : ∀ callback ∈ made, Callback.inner callback = true) :
    ∃ next, made.foldlM Programmer.xmCallback programmer = .ok next ∧
      next.Collected before base (image ++ (made.filterMap Callback.payload).flatten) := by
  induction made generalizing image programmer with
  | nil => exact ⟨programmer, rfl, by simpa using collected⟩
  | cons callback made induction =>
    have innerRest : ∀ other ∈ made, other.inner = true := fun other member =>
      inner other (List.mem_cons_of_mem _ member)
    cases callback with
    | entry => cases inner _ List.mem_cons_self
    | eot => cases inner _ List.mem_cons_self
    | can =>
      obtain ⟨next, returned, kept⟩ := induction collected innerRest
      exact ⟨next, returned, kept⟩
    | soh number buffer =>
      obtain ⟨middle, put, collected⟩ := collected.putBytes buffer
      obtain ⟨next, returned, kept⟩ := induction collected innerRest
      refine ⟨next, ?_, by simpa [Callback.payload] using kept⟩
      rw [List.foldlM_cons]
      change (buffer.foldlM Programmer.putByte programmer >>= _) = _
      rw [put]
      exact returned

namespace Board

variable {file : List Block} {before : List NandCall} {base : UInt32} {board : Board}

theorem programmed_of_collected (noEot : board.passed.count .eot = 0)
    (collected : board.programmer.Collected before base board.image) :
    board.Programmed before base := by
  obtain ⟨made, calls, length, held⟩ := collected.calls
  exact ⟨made, calls, by rw [length, noEot, Nat.add_zero], held⟩

theorem Stored.quiet (stored : board.Stored file before base) {link : Link}
    (synced : link.Synced file) (receiver : link.receiver = board.link.receiver)
    (delivered : link.delivered = board.link.delivered) :
    (Board.mk link board.programmer (board.passed ++ [])).Stored file before base := by
  have image : (Board.mk link board.programmer (board.passed ++ [])).image = board.image := by
    rw [Board.image, delivered]
    rfl
  rw [List.append_nil] at image ⊢
  refine ⟨synced, ?_, ?_, ?_⟩
  · rw [receiver, delivered]
    exact stored.waiting
  · rw [receiver, image]
    exact stored.collected
  · rw [Programmed, image]
    exact stored.programmed

theorem Stored.polled (stored : board.Stored file before base) {receiver : Receiver}
    (calls : PollCalls board.link.receiver.xmState receiver.callbacks receiver.xmState)
    (synced : (board.link.afterPoll reading queue receiver).Synced file) :
    ∃ programmer, receiver.callbacks.foldlM Programmer.xmCallback board.programmer =
        .ok programmer ∧
      (Board.mk (board.link.afterPoll reading queue receiver) programmer
        (board.passed ++ receiver.callbacks)).Stored file before base := by
  have image (programmer : Programmer) :
      (Board.mk (board.link.afterPoll reading queue receiver) programmer
        (board.passed ++ receiver.callbacks)).image =
      board.image ++ (receiver.callbacks.filterMap Callback.payload).flatten := by
    simp [Board.image, Link.afterPoll]
  have state : (board.link.afterPoll reading queue receiver).receiver.xmState =
      receiver.xmState := rfl
  cases calls with
  | entry starts made_eq waits =>
    obtain ⟨nothing, silent, address, calls⟩ := stored.waiting starts
    have noImage : board.image = [] := by rw [Board.image, nothing, List.flatten_nil]
    have collected : Programmer.Collected before base []
        { board.programmer with buffOffset := 0 } := by
      rw [← address, ← calls]
      exact board.programmer.collected_nil
    refine ⟨{ board.programmer with buffOffset := 0 }, by rw [made_eq]; rfl, ?_⟩
    have kept : (board.passed ++ receiver.callbacks).count .eot = 0 ∧
        Programmer.Collected before base
          (board.image ++ (receiver.callbacks.filterMap Callback.payload).flatten)
          { board.programmer with buffOffset := 0 } := by
      rw [silent, made_eq, noImage]
      exact ⟨by decide, collected⟩
    rw [← image] at kept
    refine ⟨synced, ?_, fun _ => kept, programmed_of_collected kept.1 kept.2⟩
    rw [state, waits]
    rintro ⟨⟩
  | inner receiving started inner =>
    obtain ⟨noEot, collected⟩ := stored.collected receiving
    obtain ⟨programmer, returned, collected⟩ := collected.inner inner
    have kept : (board.passed ++ receiver.callbacks).count .eot = 0 := by
      rw [List.count_append, noEot, Nat.zero_add, List.count_eq_zero]
      intro member
      cases inner _ member
    rw [← image] at collected
    refine ⟨programmer, returned, synced, fun entry => absurd entry started,
      fun _ => ⟨kept, collected⟩, programmed_of_collected kept collected⟩
  | eot receiving made_eq exits =>
    obtain ⟨noEot, collected⟩ := stored.collected receiving
    obtain ⟨made, calls, length, held⟩ := collected.programTonand
    have same : board.image ++ ([Callback.eot].filterMap Callback.payload).flatten = board.image :=
      List.append_nil _
    refine ⟨board.programmer.programTonand, by rw [made_eq]; rfl, synced, ?_, ?_, made, calls,
      ?_, ?_⟩
    · rw [state, exits]
      rintro ⟨⟩
    · rw [state, exits]
      rintro ⟨⟩
    · rw [image, made_eq, same, List.count_append, noEot, length]
      rfl
    · rw [image, made_eq, same]
      exact held
  | idle made_eq stops =>
    obtain ⟨made, calls, length, held⟩ := stored.programmed
    refine ⟨board.programmer, by rw [made_eq]; rfl, synced, ?_, ?_, made, calls, ?_, ?_⟩
    · rw [state, stops]
      rintro ⟨⟩
    · rw [state, stops]
      rintro ⟨⟩
    · rw [image, made_eq]
      simpa using length
    · rw [image, made_eq]
      simpa using held

theorem Stored.step (stored : board.Stored file before base) {event : LinkEvent}
    (inStep : event.inStep board.link = true) :
    ∃ next, board.step file event = .ok next ∧ next.Stored file before base := by
  obtain ⟨link, stepped, synced⟩ := stored.synced.step inStep
  cases event with
  | send =>
    cases stepped
    exact ⟨_, rfl, stored.quiet synced rfl rfl⟩
  | loseReply index =>
    cases stepped
    exact ⟨_, rfl, stored.quiet synced rfl rfl⟩
  | takeReply =>
    cases stepped
    refine ⟨_, rfl, stored.quiet synced ?_ ?_⟩
    · rw [Link.takeReply]
      split
      · rfl
      · rfl
    · rw [Link.takeReply]
      split
      · rfl
      · rfl
  | poll timestamp arrives =>
    by_cases stopped : board.link.receiver.xmState = .stop
    · have same : link = board.link := by
        rw [Link.step, Link.poll, if_pos stopped] at stepped
        cases stepped
        rfl
      subst same
      refine ⟨_, ?_, stored.quiet synced rfl rfl⟩
      rw [Board.step, Board.calls, if_pos stopped, stepped]
      rfl
    · have first : (if arrives then board.link.nextByte else
            (none, board.link.reading, board.link.queue)).1 =
          if arrives then board.link.nextByte.1 else none := by
        cases arrives with
        | false => rfl
        | true => rfl
      have polled := stepped
      rw [Link.step, Link.poll, if_neg stopped] at polled
      dsimp only at polled
      rw [first] at polled
      obtain ⟨receiver, returned, same⟩ := Exec.map_eq_ok polled
      subst same
      obtain ⟨programmer, passes, kept⟩ :=
        stored.polled (menuDownload_calls stored.synced.silent.1 returned) synced
      refine ⟨_, ?_, kept⟩
      rw [Board.step, Board.calls, if_neg stopped, returned, stepped]
      simp only [Except.map, Exec.ok_bind, passes]
      rfl

theorem stored_start (bounded : receiver.FrameBounded) (programmer : Programmer) :
    (start base receiver programmer).Stored file (programmer.calls ++ [.downloadInit base])
      base where
  synced := .start bounded
  waiting _ := ⟨rfl, rfl, rfl, rfl⟩
  collected receiving := by cases receiving
  programmed := ⟨[], (List.append_nil _).symm, by simp [image, start, Link.start],
    fun index inside => absurd inside (by simp)⟩

end Board

/-- In every transfer in step the flash follows the line. Every event in step returns. Of the
bytes that were delivered the full pages are programmed one behind the other, and the end of the
file programs one more; each page starts with the bytes that the file has there. -/
theorem received_pages_programmed (file : List Block) {receiver : Receiver}
    (bounded : receiver.FrameBounded) (programmer : Programmer) (base : UInt32)
    {events : List LinkEvent} {last : Board}
    (run : Run (Board.InStep file) (Board.start base receiver programmer) events last) :
    (∀ event : LinkEvent, event.inStep last.link = true → ∃ next, last.step file event = .ok next) ∧
    ∃ made, last.programmer.calls = programmer.calls ++ .downloadInit base :: made ∧
      (programs made).length = 128 * last.link.delivered.length / 2048 + last.passed.count .eot ∧
      ∀ index (inside : index < (programs made).length),
        (programs made)[index].1 = base + 2048 * UInt32.ofNat index ∧
        (imagePage (file.flatMap Block.bytes) index).take
          (128 * last.link.delivered.length - 2048 * index) <+:
            (programs made)[index].2.toList := by
  have stored : last.Stored file (programmer.calls ++ [.downloadInit base]) base := by
    refine run.invariant (fun stepped kept => ?_) (Board.stored_start bounded programmer)
    obtain ⟨after, returned, keptAfter⟩ := kept.step stepped.1
    cases returned.symm.trans stepped.2
    exact keptAfter
  refine ⟨fun event inStep => (stored.step inStep).imp fun next => And.left, ?_⟩
  obtain ⟨made, calls, length, held⟩ := stored.programmed
  obtain ⟨more, whole⟩ := stored.synced.delivered
  have sized : last.image.length = 128 * last.link.delivered.length := by
    have each : ∀ size ∈ last.link.delivered.map List.length, size = 128 := by
      intro size sizeMember
      obtain ⟨payload, member, rfl⟩ := List.mem_map.mp sizeMember
      obtain ⟨block, _, equal⟩ := List.mem_map.mp (whole ▸ List.mem_append_left more member)
      rw [← equal, block.size]
      rfl
    rw [Board.image, List.length_flatten, List.sum_eq_card_nsmul _ 128 each, List.length_map,
      smul_eq_mul, Nat.mul_comm]
  have image : (file.flatMap Block.bytes).take (128 * last.link.delivered.length) = last.image := by
    rw [List.flatMap_def, ← whole, List.flatten_append, ← sized, Board.image, List.take_left]
  refine ⟨made, by rw [calls, List.append_assoc]; rfl, by rw [length, sized], ?_⟩
  intro index inside
  obtain ⟨address, page⟩ := held index inside
  refine ⟨address, ?_⟩
  rw [← image, imagePage, List.drop_take] at page
  rwa [imagePage, List.take_take, Nat.min_comm, ← List.take_take]

def countBlock : Block := ⟨(List.range XMODEM_DATA_SIZE).map UInt8.ofNat, by simp⟩

/-- The file of one block arrives, its ACK is taken, and the end of the file follows. -/
def fileEvents : List LinkEvent := cleanEvents ++ [.takeReply, .send, .poll 1000 true]

theorem received_pages_programmed_file : ∃ last made,
    Run (Board.InStep [countBlock]) (Board.start 0x40000 .powerOn .powerOn) fileEvents last ∧
      last.passed = [.entry, .soh 1 countBlock.bytes, .eot] ∧
      last.programmer.calls = .downloadInit 0x40000 :: made ∧
      ∃ page, programs made = [(0x40000, page)] ∧ countBlock.bytes <+: page.toList := by
  obtain ⟨last, executed, passes, delivers⟩ : ∃ last, fileEvents.foldlM (fun board event =>
        if event.inStep board.link then board.step [countBlock] event else .error .diverges)
        (Board.start 0x40000 .powerOn .powerOn) = .ok last ∧
      last.passed = [.entry, .soh 1 countBlock.bytes, .eot] ∧
      last.link.delivered.length = 1 :=
    Exec.Returns.exists (by decide +kernel)
  have run : Run (Board.InStep [countBlock]) (Board.start 0x40000 .powerOn .powerOn) fileEvents
      last := by
    apply (Run.of_foldlM executed).mono
    intro first event next stepped
    split at stepped
    · rename_i inStep
      exact ⟨inStep, stepped⟩
    · cases stepped
  obtain ⟨-, made, calls, length, pages⟩ :=
    received_pages_programmed [countBlock] Receiver.powerOn_frameBounded .powerOn 0x40000 run
  rw [delivers, passes] at length
  obtain ⟨⟨address, page⟩, single⟩ := List.length_eq_one_iff.mp (length.trans (by decide))
  obtain ⟨place, starts⟩ := pages 0 (by rw [single]; exact Nat.one_pos)
  rw [delivers] at starts
  simp only [single, List.getElem_cons_zero] at place starts
  refine ⟨last, made, run, passes, calls, page, by rw [single, place]; rfl, ?_⟩
  exact starts

end UBootV210.Spl
