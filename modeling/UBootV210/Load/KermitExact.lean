import UBootV210.Load.KermitSteps

/-! # Exactness of a Kermit download

What the packets of a transmission decode to, and the downloads that end with it in
memory. -/

namespace UBootV210.Load

/-! ## The decoded file -/

theorem forall_byte {holds : UInt8 → Prop} (all : ∀ value : Fin 256, holds (UInt8.ofFin value))
    (byte : UInt8) : holds byte := by
  have at_byte := all byte.toFin
  rwa [UInt8.ofFin_toFin] at at_byte

theorem ktrans_control : ∀ byte : UInt8, byte &&& 0x7f < 0x20 ∨ byte &&& 0x7f = 0x7f →
    ktrans (byte ^^^ 0x40) = byte :=
  forall_byte (by decide +kernel)

theorem ktrans_quote : ∀ byte : UInt8, (33 ≤ byte &&& 0x7f ∧ byte &&& 0x7f ≤ 62) ∨
    (96 ≤ byte &&& 0x7f ∧ byte &&& 0x7f ≤ 126) → ktrans byte = byte :=
  forall_byte (by decide +kernel)

theorem Decoder.feed_cons (decoder : Decoder) (character : UInt8) (characters : List UInt8) :
    decoder.feed (character :: characters) = (decoder.feedChar character).feed characters := rfl

variable {characters : List UInt8}

theorem Encodes.feed (encodes : Encodes quote characters file)
    (range : (33 ≤ quote ∧ quote ≤ 62) ∨ (96 ≤ quote ∧ quote ≤ 126)) (bytes : List UInt8) :
    Decoder.feed ⟨quote, false, bytes⟩ characters = ⟨quote, false, bytes ++ file⟩ := by
  have escapes (bytes : List UInt8) :
      Decoder.feedChar ⟨quote, false, bytes⟩ quote = ⟨quote, true, bytes⟩ := by
    simp [Decoder.feedChar]
  have translates (bytes : List UInt8) (character : UInt8) :
      Decoder.feedChar ⟨quote, true, bytes⟩ character =
        ⟨quote, false, bytes ++ [ktrans character]⟩ := by
    simp [Decoder.feedChar]
  induction encodes generalizing bytes with
  | nil =>
    rw [List.append_nil]
    rfl
  | @plain character characters file other _ induction =>
    have adds : Decoder.feedChar ⟨quote, false, bytes⟩ character =
        ⟨quote, false, bytes ++ [character]⟩ := by
      simp [Decoder.feedChar, other]
    rw [Decoder.feed_cons, adds, induction, List.append_assoc, List.singleton_append]
  | @control byte characters file isControl _ induction =>
    rw [Decoder.feed_cons, escapes, Decoder.feed_cons, translates, ktrans_control byte isControl,
      induction, List.append_assoc, List.singleton_append]
  | @quoted byte characters file isQuote _ induction =>
    rw [Decoder.feed_cons, escapes, Decoder.feed_cons, translates,
      ktrans_quote byte (by rwa [isQuote]), induction, List.append_assoc, List.singleton_append]

theorem foldl_take (packets : List Packet) (decoder : Decoder)
    (ordinary : ∀ packet ∈ packets, packet.type ≠ sendType) :
    packets.foldl Decoder.take decoder = decoder.feed
      ((packets.filter fun packet => packet.type = dataType).flatMap Packet.data) := by
  induction packets generalizing decoder with
  | nil => rfl
  | cons packet packets induction =>
    have rest := induction (decoder.take packet)
      (fun other member => ordinary other (List.mem_cons_of_mem _ member))
    rw [List.foldl_cons, rest, Decoder.take]
    by_cases isData : packet.type = dataType
    · rw [if_pos isData, List.filter_cons_of_pos (by simpa using isData), List.flatMap_cons,
        Decoder.feed, Decoder.feed, ← List.foldl_append]
      rfl
    · rw [if_neg isData, if_neg (ordinary packet List.mem_cons_self),
        List.filter_cons_of_neg (by simpa using isData)]

theorem Transmission.before_last (transmission : Transmission) :
    (transmission.before (transmission.middle.length + 1)).bytes = transmission.file := by
  have first : Decoder.take ⟨kEscape, false, []⟩ ⟨sendType, transmission.parameters⟩ =
      ⟨quoteOf transmission.parameters, false, []⟩ := rfl
  rw [before, packets, List.take_succ_cons, List.take_left, List.foldl_cons, first,
    foldl_take _ _ fun packet member => (transmission.ordinary packet member).1,
    transmission.encodes.feed transmission.quote_range, List.nil_append]

theorem Transmission.position_of_break {transmission : Transmission} {position : Nat}
    (known : transmission.packets[position]? = some packet)
    (isBreak : packet.type = breakType) : position = transmission.middle.length + 1 := by
  cases position with
  | zero =>
    cases known
    have differ : sendType ≠ breakType := by decide
    exact absurd isBreak differ
  | succ position =>
    rw [packets, List.getElem?_cons_succ] at known
    by_cases middle : position < transmission.middle.length
    · rw [List.getElem?_append_left middle] at known
      exact absurd isBreak (transmission.ordinary packet (List.mem_of_getElem? known)).2
    · have inside := (List.getElem?_eq_some_iff.mp known).1
      rw [List.length_append, List.length_singleton] at inside
      omega

/-- In every run of the line in which neither a bad length nor a second copy takes back a
packet that was accepted, a download that ends with the packet of type B has put the file
into memory. -/
theorem kermit_download_exact (transmission : Transmission) (receiver : Receiver)
    (events : List Event) (final : Line)
    (run : Run (fun line event next =>
      Line.Step transmission line event next ∧ line.Recoverable event)
      (Line.begin receiver) events final)
    (finished : final.receiver.place = .finished) :
    final.receiver.address = transmission.file.length ∧
      ∀ (place : Nat) (inside : place < transmission.file.length),
        final.receiver.memory place = transmission.file[place] := by
  have sound : final.Sound transmission :=
    run.invariant (fun step sound => sound.step step.1 step.2) Line.begin_sound
  obtain ⟨packet, known, _, stage⟩ := sound
  rw [Line.Stage, finished] at stage
  obtain ⟨isBreak, _, address, holds⟩ := stage
  have file : (final.base transmission).bytes = transmission.file := by
    rw [Line.base, Transmission.position_of_break known isBreak, transmission.before_last]
  rw [file] at address holds
  exact ⟨address, fun place inside => holds place inside inside⟩

/-! ## Runs on characters -/

instance (transmission : Transmission) (line : Line) (character : UInt8) :
    Decidable (line.Detected transmission character) :=
  decidable_of_iff ((line.receiver.place = .sequence → character = tochar (line.current % 64)) ∧
      (line.receiver.place = .eol → character = endChar →
        transmission.packets[line.current]? = some ⟨line.receiver.kState, line.seen⟩))
    ⟨fun both => ⟨both.1, both.2⟩, fun detected => ⟨detected.sequence, detected.accepted⟩⟩

instance (line : Line) (character : UInt8) :
    Decidable (line.Recoverable (.character character)) :=
  inferInstanceAs (Decidable (_ → _ → _))

def Line.Reads (allowed : Line → UInt8 → Prop) : Line → List UInt8 → Prop
  | _, [] => True
  | line, character :: rest =>
      allowed line character ∧ Line.Reads allowed (line.read character) rest

def Line.readAll (line : Line) (characters : List UInt8) : Line :=
  characters.foldl (fun line character => line.read character) line

def Line.decidableReads {allowed : Line → UInt8 → Prop}
    [allows : ∀ line character, Decidable (allowed line character)] (characters : List UInt8) :
    ∀ line : Line, Decidable (line.Reads allowed characters) :=
  match characters with
  | [] => fun _ => isTrue trivial
  | character :: rest => fun line =>
      @instDecidableAnd _ _ (allows line character) (Line.decidableReads rest (line.read character))

instance {allowed : Line → UInt8 → Prop}
    [∀ line character, Decidable (allowed line character)] (line : Line)
    (characters : List UInt8) : Decidable (line.Reads allowed characters) :=
  Line.decidableReads characters line

theorem Line.Reads.run {allowed : Line → UInt8 → Prop} {step : Line → Event → Line → Prop}
    (reads : line.Reads allowed characters)
    (steps : ∀ line character, allowed line character →
      step line (.character character) (line.read character)) :
    Run step line (characters.map .character) (line.readAll characters) := by
  induction characters generalizing line with
  | nil => exact .nil line
  | cons character rest induction =>
    exact .cons (steps line character reads.1) (induction reads.2)

def idleReceiver : Receiver where
  place := .start
  sum := 0
  length := 0
  lenHi := 0
  n := 0
  lastN := -1
  kState := 0
  kStateSaved := 0
  escape := false
  escapeSaved := false
  address := 0
  addressSaved := 0
  memory := fun _ => 0
  sendParms := fun _ => 0
  sendPtr := 0
  hisEol := endChar
  hisPadCount := 0
  hisPadChar := 0
  hisQuote := kEscape

/-- A file of two bytes; the second one is a control character. -/
def smallTransmission : Transmission where
  file := [65, 1]
  parameters := []
  middle := [⟨dataType, [65, 0x23, 65]⟩]
  last := []
  ordinary := by decide
  quote_range := by decide
  encodes := by
    have control : Encodes kEscape [kEscape, 1 ^^^ 0x40] [1] := .control (by decide) .nil
    exact .plain (by decide) control

def receivedLine : Line :=
  { Line.readAll
      { Line.readAll (Line.begin idleReceiver) (Packet.frame ⟨sendType, []⟩ 0) with
        current := 1, answered := false, acked := false }
      (Packet.frame ⟨dataType, [65, 0x23, 65]⟩ 1) with
    current := 2, answered := false, acked := false }

theorem receivedLine_run : ∃ events, Run (fun line event next =>
      Line.Step smallTransmission line event next ∧ line.Recoverable event)
      (Line.begin idleReceiver) events receivedLine := by
  have first : (Line.begin idleReceiver).Reads (fun line character =>
      line.Detected smallTransmission character ∧ line.Recoverable (.character character))
      (Packet.frame ⟨sendType, []⟩ 0) := by
    decide +kernel
  have second : Line.Reads (fun line character =>
      line.Detected smallTransmission character ∧ line.Recoverable (.character character))
      { Line.readAll (Line.begin idleReceiver) (Packet.frame ⟨sendType, []⟩ 0) with
        current := 1, answered := false, acked := false }
      (Packet.frame ⟨dataType, [65, 0x23, 65]⟩ 1) := by
    decide +kernel
  have steps (line : Line) (character : UInt8)
      (allowed : line.Detected smallTransmission character ∧
        line.Recoverable (.character character)) :
      Line.Step smallTransmission line (.character character) (line.read character) ∧
        line.Recoverable (.character character) := ⟨.character allowed.1, allowed.2⟩
  exact ⟨_, (first.run steps).append (.cons ⟨.next rfl (by decide), rfl, rfl⟩
    ((second.run steps).append (.cons ⟨.next rfl (by decide), rfl, rfl⟩ (.nil _))))⟩

theorem kermit_download_exact_small :
    ∃ events final, Run (Line.Step smallTransmission) (Line.begin idleReceiver) events final ∧
      final.receiver.address = smallTransmission.file.length ∧
      ∀ (place : Nat) (inside : place < smallTransmission.file.length),
        final.receiver.memory place = smallTransmission.file[place] := by
  have last : receivedLine.Reads (fun line character =>
      line.Detected smallTransmission character ∧ line.Recoverable (.character character))
      (Packet.frame ⟨breakType, []⟩ 2) := by
    decide +kernel
  obtain ⟨events, received⟩ := receivedLine_run
  have run := received.append (last.run fun line character allowed =>
    ⟨.character allowed.1, allowed.2⟩)
  exact ⟨_, _, run.mono And.left, kermit_download_exact smallTransmission idleReceiver _ _ run rfl⟩

/-- The last packet comes once with a length that is not printable: the data is taken back,
and the download ends without it. -/
theorem bad_length_loses_data :
    ∃ events final, Run (Line.Step smallTransmission) (Line.begin idleReceiver) events final ∧
      final.receiver.place = .finished ∧ final.receiver.address = 0 := by
  have last : receivedLine.Reads (fun line character =>
      line.Detected smallTransmission character)
      ([startChar, 2] ++ Packet.frame ⟨breakType, []⟩ 2) := by
    decide +kernel
  obtain ⟨events, received⟩ := receivedLine_run
  exact ⟨_, _, (received.mono And.left).append
    (last.run fun line character detected => .character detected), rfl, rfl⟩

end UBootV210.Load
