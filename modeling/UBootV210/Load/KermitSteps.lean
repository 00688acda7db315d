import UBootV210.Load.KermitLine

/-! # Steps of a Kermit line

The memory holds what the packets before the current one decode to. The checkpoint belongs
to the current packet once its sequence number was received. -/

namespace UBootV210.Load

open StaticBuffer PrefixCopy

theorem tochar_spec (less : value < 64) :
    isControl (tochar value) = false ∧ untochar (tochar value) = value := by
  have all : ∀ value : Fin 64, isControl (tochar value.val) = false ∧
      untochar (tochar value.val) = value.val := by decide
  exact all ⟨value, less⟩

/-! ## The receiver and the decoder -/

def Represents (receiver : Receiver) (decoder : Decoder) : Prop :=
  receiver.escape = decoder.escape ∧ receiver.address = decoder.bytes.length ∧
    HoldsUpTo receiver.memory decoder.bytes decoder.bytes.length

def Keeps (receiver : Receiver) (decoder : Decoder) : Prop :=
  receiver.escapeSaved = decoder.escape ∧ receiver.addressSaved = decoder.bytes.length

variable {characters : List UInt8}

section

variable {receiver : Receiver} {decoder other : Decoder} {character : UInt8}

theorem Represents.osDataChar (represents : Represents receiver decoder) (character : UInt8) :
    (Load.osDataChar character receiver).address = (decoder.bytes ++ [character]).length ∧
      HoldsUpTo (Load.osDataChar character receiver).memory (decoder.bytes ++ [character])
        (decoder.bytes ++ [character]).length := by
  rw [Load.osDataChar, represents.2.1]
  refine ⟨?_, represents.2.2.putBytes_append⟩
  rw [List.length_append, List.length_singleton]

theorem Represents.kDataChar (represents : Represents receiver decoder)
    (quote : receiver.hisQuote = decoder.quote) (character : UInt8) :
    Represents (kDataChar character receiver) (decoder.feedChar character) := by
  have stored := represents.osDataChar
  obtain ⟨escape, address, holds⟩ := represents
  rw [Load.kDataChar, Decoder.feedChar, escape, quote]
  split
  · exact ⟨rfl, stored _⟩
  · split
    · exact ⟨rfl, address, holds⟩
    · exact ⟨escape, stored _⟩

theorem kDataChar_eq (character : UInt8) (receiver : Receiver) :
    ∃ escape address memory, kDataChar character receiver =
      { receiver with escape := escape, address := address, memory := memory } := by
  rw [kDataChar]
  split
  · exact ⟨_, _, _, rfl⟩
  · split
    · exact ⟨_, _, _, rfl⟩
    · exact ⟨_, _, _, rfl⟩

theorem Decoder.isPrefix_feedChar : decoder.bytes <+: (decoder.feedChar character).bytes := by
  rw [Decoder.feedChar]
  split
  · exact List.prefix_append _ _
  · split
    · exact List.prefix_refl _
    · exact List.prefix_append _ _

theorem Decoder.isPrefix_feed {characters : List UInt8} :
    decoder.bytes <+: (decoder.feed characters).bytes := by
  induction characters generalizing decoder with
  | nil => exact List.prefix_refl _
  | cons character characters induction =>
    exact Decoder.isPrefix_feedChar.trans induction

theorem Decoder.isPrefix_take : decoder.bytes <+: (decoder.take packet).bytes := by
  rw [Decoder.take]
  split
  · exact Decoder.isPrefix_feed
  · split
    · exact List.prefix_refl _
    · exact List.prefix_refl _

theorem Represents.restore (represents : Represents receiver other)
    (before : decoder.bytes <+: other.bytes) (keeps : Keeps receiver decoder) :
    Represents (kDataRestore receiver) decoder :=
  ⟨keeps.1, keeps.2, represents.2.2.of_isPrefix before⟩

def Decoder.withQuote (decoder : Decoder) (quote : UInt8) : Decoder :=
  { decoder with quote := quote }

theorem Decoder.quote_feed (decoder : Decoder) (characters : List UInt8) :
    (decoder.feed characters).quote = decoder.quote := by
  induction characters generalizing decoder with
  | nil => rfl
  | cons character characters induction =>
    rw [Decoder.feed, List.foldl_cons, ← Decoder.feed, induction, Decoder.feedChar]
    split
    · rfl
    · split
      · rfl
      · rfl

/-- The parameters of the sender are in the buffer, apart from the last place of it. -/
def Buffered (receiver : Receiver) (characters : List UInt8) : Prop :=
  receiver.sendPtr = min characters.length 19 ∧
    ∀ (index : Nat) (inside : index < characters.length), index < 19 →
      receiver.sendParms index = characters[index]

theorem Buffered.sendParmChar (buffered : Buffered receiver characters) :
    Buffered (Load.sendParmChar character receiver) (characters ++ [character]) := by
  obtain ⟨sendPtr, sendParms⟩ := buffered
  rw [Load.sendParmChar]
  constructor
  · dsimp only
    rw [List.length_append, List.length_singleton, sendDataSize]
    split <;> omega
  · intro index inside less
    rw [List.length_append, List.length_singleton] at inside
    dsimp only
    by_cases last : index = characters.length
    · subst last
      have place : receiver.sendPtr = characters.length := by
        omega
      have written : putBytes receiver.sendParms characters.length [character]
          (characters.length + 0) = character := putBytes_of_inside Nat.zero_lt_one
      rw [place, List.getElem_concat_length rfl]
      exact written
    · rw [putBytes_of_outside (by omega), List.getElem_append_left (by omega)]
      exact sendParms index (by omega) less

end

namespace Line

variable (transmission : Transmission)

def base (line : Line) : Decoder := transmission.before line.current

def Numbered (line : Line) : Prop :=
  line.receiver.lastN = (line.current % 64 : Nat) ∧ Keeps line.receiver (line.base transmission)

def Taken (line : Line) (packet : Packet) : Prop :=
  line.Numbered transmission ∧ Represents line.receiver ((line.base transmission).take packet) ∧
    line.receiver.hisQuote = ((line.base transmission).take packet).quote

/-- The receiver is not inside a packet: the sequence number of the current one was not
received yet, or what it adds is taken back or there. -/
def Between (line : Line) (packet : Packet) : Prop :=
  (line.receiver.lastN ≠ (line.current % 64 : Nat) ∧
    Represents line.receiver (line.base transmission)) ∨
  (line.Numbered transmission ∧ (Represents line.receiver (line.base transmission) ∨
      Represents line.receiver ((line.base transmission).take packet)))

def decoded (line : Line) : Decoder :=
  if line.receiver.kState = dataType then
    ((line.base transmission).withQuote line.receiver.hisQuote).feed line.seen
  else
    line.base transmission

def Reading (line : Line) : Prop :=
  line.acked = false ∧ line.Numbered transmission ∧
    Represents line.receiver (line.decoded transmission) ∧
    (line.receiver.kState = sendType → Buffered line.receiver line.seen)

def Undoable (line : Line) : Prop :=
  line.acked = false ∧ line.Numbered transmission ∧
    ∃ decoder, (line.base transmission).bytes <+: decoder.bytes ∧ Represents line.receiver decoder

/-- The quote is that of the packets before, unless the current packet names another. -/
def QuoteKnown (line : Line) (packet : Packet) : Prop :=
  packet.type ≠ sendType → line.receiver.hisQuote = (line.base transmission).quote

def Stage (line : Line) (packet : Packet) : Prop :=
  match line.receiver.place with
  | .start => line.receiver.sendPtr = 0 ∧ line.Between transmission packet ∧
      (line.acked = true → line.Taken transmission packet)
  | .length | .sequence => line.receiver.sendPtr = 0 ∧ line.seen = [] ∧ line.acked = false ∧
      line.Between transmission packet
  | .type | .lengthHigh | .lengthLow | .headerCheck =>
      line.receiver.sendPtr = 0 ∧ line.seen = [] ∧ line.acked = false ∧
        line.Numbered transmission ∧ Represents line.receiver (line.base transmission)
  | .data | .check | .eol => line.Reading transmission
  | .finished => packet.type = breakType ∧ Represents line.receiver (line.base transmission)
  | .aborted => True

def Sound (line : Line) : Prop :=
  ∃ packet, transmission.packets[line.current]? = some packet ∧
    line.QuoteKnown transmission packet ∧ line.Stage transmission packet

variable {transmission} {line : Line} {packet : Packet} {character : UInt8}

theorem Undoable.packetError (undoable : line.Undoable transmission)
    (quote : line.QuoteKnown transmission packet)
    (known : transmission.packets[line.current]? = some packet) (seen : List UInt8) :
    Sound transmission { line with
      receiver := (Load.packetError line.receiver).1, seen := seen } := by
  obtain ⟨unacked, numbered, decoder, before, represents⟩ := undoable
  refine ⟨packet, known, quote, rfl, .inr ⟨numbered, .inl ?_⟩, ?_⟩
  · exact represents.restore before numbered.2
  · intro acked
    rw [unacked] at acked
    cases acked

def inner (place : Place) : Prop :=
  place ≠ .start ∧ place ≠ .eol ∧ place ≠ .finished ∧ place ≠ .aborted

theorem read_inner (isInner : inner line.receiver.place) : line.read character = { line with
      receiver := (if isControl character then packetError line.receiver
        else packetChar character line.receiver).1
      seen := if line.receiver.place = .data then line.seen ++ [character] else line.seen } := by
  obtain ⟨notStart, notEol, notFinished, notAborted⟩ := isInner
  have char : kRecvChar character line.receiver = if isControl character then
      packetError line.receiver else packetChar character line.receiver := by
    rw [kRecvChar]
    split
    · contradiction
    · contradiction
    · contradiction
    · contradiction
    · rfl
  simp [read, char, notStart, notEol]

theorem Undoable.read (undoable : line.Undoable transmission)
    (quote : line.QuoteKnown transmission packet)
    (known : transmission.packets[line.current]? = some packet)
    (isInner : inner line.receiver.place)
    (accepted : Sound transmission { line with
      receiver := (packetChar character line.receiver).1
      seen := if line.receiver.place = .data then line.seen ++ [character] else line.seen }) :
    (line.read character).Sound transmission := by
  rw [read_inner isInner]
  cases isControl character with
  | true => exact undoable.packetError quote known _
  | false => exact accepted

/-! ## Between packets -/

theorem Sound.readStart (sound : line.Sound transmission) (place : line.receiver.place = .start) :
    (line.read character).Sound transmission := by
  obtain ⟨packet, known, quote, stage⟩ := sound
  rw [Stage, place] at stage
  obtain ⟨empty, between, taken⟩ := stage
  by_cases starts : character = startChar
  · have reads : line.read character = { line with
        receiver := { line.receiver with place := .length }, seen := [], acked := false } := by
      simp [read, kRecvChar, place, starts]
    rw [reads]
    exact ⟨packet, known, quote, empty, rfl, rfl, between⟩
  by_cases aborts : character = etxChar
  · have reads : line.read character = { line with
        receiver := { line.receiver with place := .aborted }, seen := [] } := by
      simp [read, kRecvChar, place, aborts, startChar, etxChar]
    rw [reads]
    exact ⟨packet, known, quote, trivial⟩
  · have reads : line.read character = { line with seen := [] } := by
      simp [read, kRecvChar, place, starts, aborts]
    rw [reads]
    refine ⟨packet, known, quote, ?_⟩
    rw [Stage, place]
    exact ⟨empty, between, taken⟩

theorem Sound.readLength (sound : line.Sound transmission) (place : line.receiver.place = .length)
    (recoverable : line.Recoverable (.character character)) :
    (line.read character).Sound transmission := by
  obtain ⟨packet, known, quote, stage⟩ := sound
  rw [Stage, place] at stage
  obtain ⟨empty, noData, unacked, between⟩ := stage
  rw [read_inner (by simp [inner, place])]
  cases control : isControl character with
  | true =>
    rw [if_pos rfl]
    rcases between with ⟨fresh, represents⟩ | ⟨numbered, represents | represents⟩
    · obtain ⟨escape, address⟩ := (recoverable place control).resolve_left fresh
      refine ⟨packet, known, quote, rfl, .inl ⟨fresh, ?_⟩, ?_⟩
      · exact ⟨escape.symm.trans represents.1, address.symm.trans represents.2.1, represents.2.2⟩
      · intro acked
        rw [unacked] at acked
        cases acked
    · exact Undoable.packetError ⟨unacked, numbered, _, List.prefix_refl _, represents⟩
        quote known _
    · exact Undoable.packetError ⟨unacked, numbered, _, Decoder.isPrefix_take, represents⟩
        quote known _
  | false =>
    rw [if_neg nofun, packetChar, place]
    exact ⟨packet, known, quote, empty, noData, unacked, between⟩

theorem Sound.readSequence (sound : line.Sound transmission)
    (place : line.receiver.place = .sequence)
    (detected : line.Detected transmission character) :
    (line.read character).Sound transmission := by
  obtain ⟨packet, known, quote, stage⟩ := sound
  rw [Stage, place] at stage
  obtain ⟨empty, noData, unacked, between⟩ := stage
  have less : line.current % 64 < 64 := Nat.mod_lt _ (by decide)
  obtain ⟨printable, number⟩ := tochar_spec less
  rw [← detected.sequence place] at printable number
  rw [read_inner (by simp [inner, place]), printable, if_neg nofun, packetChar, place]
  refine ⟨packet, known, ?_, ?_⟩
  · intro type
    have same := quote type
    rw [receiveSequence]
    dsimp only
    split
    · exact same
    · exact same
  · rw [receiveSequence, number]
    dsimp only
    split
    · rename_i same
      have numbered : line.Numbered transmission := by
        rcases between with ⟨fresh, _⟩ | ⟨numbered, _⟩
        · exact absurd same.symm fresh
        · exact numbered
      refine ⟨empty, noData, unacked, numbered, ?_⟩
      rcases between with ⟨fresh, _⟩ | ⟨_, represents | represents⟩
      · exact absurd same.symm fresh
      · exact represents.restore (List.prefix_refl _) numbered.2
      · exact represents.restore Decoder.isPrefix_take numbered.2
    · rename_i other
      have represents : Represents line.receiver (line.base transmission) := by
        rcases between with ⟨_, represents⟩ | ⟨numbered, _⟩
        · exact represents
        · exact absurd numbered.1.symm other
      exact ⟨empty, noData, unacked, ⟨rfl, represents.1, represents.2.1⟩, represents⟩

/-! ## Inside a packet -/

theorem stage_of_reading (reading : line.Reading transmission)
    (place : line.receiver.place = dataOrCheck length) : line.Stage transmission packet := by
  rw [dataOrCheck] at place
  split at place
  · rwa [Stage, place]
  · rwa [Stage, place]

theorem reading_of_header (noData : line.seen = []) (empty : line.receiver.sendPtr = 0)
    (unacked : line.acked = false) (numbered : line.Numbered transmission)
    (represents : Represents line.receiver (line.base transmission)) :
    line.Reading transmission := by
  refine ⟨unacked, numbered, ?_, fun _ => ?_⟩
  · rw [decoded, noData]
    split <;> exact represents
  · rw [noData]
    exact ⟨empty, fun _ inside => absurd inside (Nat.not_lt_zero _)⟩

theorem Sound.readHeader (sound : line.Sound transmission)
    (place : line.receiver.place = .type ∨ line.receiver.place = .lengthHigh ∨
      line.receiver.place = .lengthLow ∨ line.receiver.place = .headerCheck) :
    (line.read character).Sound transmission := by
  obtain ⟨packet, known, quote, stage⟩ := sound
  have inside : line.receiver.sendPtr = 0 ∧ line.seen = [] ∧ line.acked = false ∧
      line.Numbered transmission ∧ Represents line.receiver (line.base transmission) := by
    rcases place with place | place | place | place <;> rwa [Stage, place] at stage
  obtain ⟨empty, noData, unacked, numbered, represents⟩ := inside
  have isInner : inner line.receiver.place := by
    rcases place with place | place | place | place <;> simp [inner, place]
  have undoable : line.Undoable transmission :=
    ⟨unacked, numbered, _, List.prefix_refl _, represents⟩
  have reading := reading_of_header noData empty unacked numbered represents
  apply undoable.read quote known isInner
  rcases place with type | high | low | check
  · rw [packetChar, type, receiveType]
    refine ⟨packet, known, quote, ?_⟩
    by_cases long : line.receiver.length - 1 = -2
    · rw [if_pos long]
      exact ⟨empty, noData, unacked, numbered, represents⟩
    · rw [if_neg long]
      exact stage_of_reading (reading_of_header noData empty unacked numbered represents) rfl
  · rw [packetChar, high]
    exact ⟨packet, known, quote, empty, noData, unacked, numbered, represents⟩
  · rw [packetChar, low]
    exact ⟨packet, known, quote, empty, noData, unacked, numbered, represents⟩
  · rw [packetChar, check]
    dsimp only
    split
    · exact undoable.packetError quote known _
    · exact ⟨packet, known, quote, stage_of_reading reading rfl⟩

theorem Reading.undoable (reading : line.Reading transmission) : line.Undoable transmission := by
  obtain ⟨unacked, numbered, represents, _⟩ := reading
  refine ⟨unacked, numbered, _, ?_, represents⟩
  rw [decoded]
  split
  · exact @Decoder.isPrefix_feed
      ((line.base transmission).withQuote line.receiver.hisQuote) line.seen
  · exact List.prefix_refl _

theorem Sound.readData (sound : line.Sound transmission) (place : line.receiver.place = .data) :
    (line.read character).Sound transmission := by
  obtain ⟨packet, known, quote, stage⟩ := sound
  rw [Stage, place] at stage
  have reading : line.Reading transmission := stage
  obtain ⟨unacked, numbered, represents, parameters⟩ := stage
  apply reading.undoable.read quote known (by simp [inner, place])
  rw [if_pos place, packetChar, place, receiveData]
  by_cases isData : line.receiver.kState = dataType
  · rw [if_pos isData]
    rw [decoded, if_pos isData] at represents
    have counted : Represents (countData character line.receiver) _ := represents
    have quoted : line.receiver.hisQuote =
        (((line.base transmission).withQuote line.receiver.hisQuote).feed line.seen).quote :=
      (Decoder.quote_feed ((line.base transmission).withQuote _) line.seen).symm
    have fed := counted.kDataChar quoted character
    obtain ⟨escape, address, memory, isChanged⟩ :=
      kDataChar_eq character (countData character line.receiver)
    rw [isChanged] at fed ⊢
    refine ⟨packet, known, quote, stage_of_reading ⟨unacked, numbered, ?_, fun type => ?_⟩ rfl⟩
    · refine (congrArg (Represents _) (if_pos isData)).mpr ?_
      rw [Decoder.feed, List.foldl_append]
      exact fed
    · exact absurd (isData.symm.trans type) (by decide)
  · rw [if_neg isData]
    rw [decoded, if_neg isData] at represents
    by_cases isSend : line.receiver.kState = sendType
    · rw [if_pos isSend]
      refine ⟨packet, known, quote, stage_of_reading ⟨unacked, numbered, ?_, fun _ => ?_⟩ rfl⟩
      · exact (congrArg (Represents _) (if_neg isData)).mpr represents
      · exact Buffered.sendParmChar (parameters isSend)
    · rw [if_neg isSend]
      refine ⟨packet, known, quote, stage_of_reading ⟨unacked, numbered, ?_, fun type => ?_⟩ rfl⟩
      · exact (congrArg (Represents _) (if_neg isData)).mpr represents
      · exact absurd type isSend

theorem Sound.readCheck (sound : line.Sound transmission)
    (place : line.receiver.place = .check) : (line.read character).Sound transmission := by
  obtain ⟨packet, known, quote, stage⟩ := sound
  rw [Stage, place] at stage
  have undoable := Reading.undoable stage
  apply undoable.read quote known (by simp [inner, place])
  rw [packetChar, place]
  dsimp only
  split
  · exact undoable.packetError quote known _
  · exact ⟨packet, known, quote, stage⟩

/-! ## The end of a packet -/

theorem sendParmCount_le_iff {receiver : Receiver} (buffered : Buffered receiver characters) :
    6 ≤ sendParmCount receiver ↔ 6 ≤ characters.length := by
  rw [sendParmCount, buffered.1, sendDataSize]
  split <;> omega

theorem hisQuote_eq {receiver : Receiver} (buffered : Buffered receiver characters) :
    (handleSendPacket receiver).1.hisQuote = quoteOf characters := by
  rw [handleSendPacket, quoteOf]
  by_cases long : 6 ≤ characters.length
  · rw [if_pos ((sendParmCount_le_iff buffered).mpr long), if_pos long,
      List.getD_eq_getElem _ _ (by omega)]
    exact buffered.2 5 (by omega) (by decide)
  · rw [if_neg (mt (sendParmCount_le_iff buffered).mp long), if_neg long]

theorem Reading.acceptPacket (reading : line.Reading transmission)
    (quote : line.QuoteKnown transmission ⟨line.receiver.kState, line.seen⟩)
    (known : transmission.packets[line.current]? = some ⟨line.receiver.kState, line.seen⟩) :
    Sound transmission { line with
      receiver := (Load.acceptPacket line.receiver).1, answered := true, acked := true } := by
  obtain ⟨_, numbered, represents, parameters⟩ := reading
  rw [Load.acceptPacket]
  by_cases isSend : line.receiver.kState = sendType
  · rw [if_pos isSend]
    have notData : line.receiver.kState ≠ dataType := by
      rw [isSend]
      decide
    have takes : (line.base transmission).take ⟨line.receiver.kState, line.seen⟩ =
        (line.base transmission).withQuote (quoteOf line.seen) := by
      rw [Decoder.take, if_neg notData, if_pos isSend]
      rfl
    have taken : Represents line.receiver
        ((line.base transmission).take ⟨line.receiver.kState, line.seen⟩) := by
      rw [decoded, if_neg notData] at represents
      rw [takes]
      exact represents
    refine ⟨_, known, fun type => absurd isSend type, rfl, .inr ⟨numbered, .inr taken⟩, ?_⟩
    intro _
    refine ⟨numbered, taken, ?_⟩
    change (handleSendPacket line.receiver).1.hisQuote =
      ((line.base transmission).take ⟨line.receiver.kState, line.seen⟩).quote
    rw [hisQuote_eq (parameters isSend), takes]
    rfl
  rw [if_neg isSend]
  have isQuote : line.receiver.hisQuote = (line.base transmission).quote := quote isSend
  have takes : line.decoded transmission =
      (line.base transmission).take ⟨line.receiver.kState, line.seen⟩ := by
    rw [decoded, Decoder.take, if_neg isSend, isQuote]
    rfl
  by_cases isBreak : line.receiver.kState = breakType
  · rw [if_pos isBreak]
    rw [decoded, if_neg (by rw [isBreak]; decide)] at represents
    exact ⟨_, known, quote, isBreak, represents⟩
  · rw [if_neg isBreak]
    rw [takes] at represents
    refine ⟨_, known, quote, rfl, .inr ⟨numbered, .inr represents⟩, fun _ => ?_⟩
    refine ⟨numbered, represents, isQuote.trans ?_⟩
    rw [Decoder.take, if_neg isSend]
    split
    · exact (Decoder.quote_feed _ _).symm
    · rfl

theorem Sound.readEol (sound : line.Sound transmission) (place : line.receiver.place = .eol)
    (detected : line.Detected transmission character) :
    (line.read character).Sound transmission := by
  obtain ⟨packet, known, quote, stage⟩ := sound
  rw [Stage, place] at stage
  by_cases ends : character = endChar
  · have reads : line.read character = { line with
        receiver := (acceptPacket line.receiver).1, answered := true, acked := true } := by
      simp [read, kRecvChar, place, ends]
    have sent := known.symm.trans (detected.accepted place ends)
    cases Option.some.inj sent
    rw [reads]
    exact Reading.acceptPacket stage quote known
  · have reads : line.read character = { line with
        receiver := (packetError line.receiver).1 } := by
      simp [read, kRecvChar, place, ends]
    rw [reads]
    exact (Reading.undoable stage).packetError quote known _

theorem Sound.read (sound : line.Sound transmission)
    (detected : line.Detected transmission character)
    (recoverable : line.Recoverable (.character character)) :
    (line.read character).Sound transmission := by
  cases place : line.receiver.place with
  | start => exact sound.readStart place
  | length => exact sound.readLength place recoverable
  | sequence => exact sound.readSequence place detected
  | type => exact sound.readHeader (.inl place)
  | lengthHigh => exact sound.readHeader (.inr (.inl place))
  | lengthLow => exact sound.readHeader (.inr (.inr (.inl place)))
  | headerCheck => exact sound.readHeader (.inr (.inr (.inr place)))
  | data => exact sound.readData place
  | check => exact sound.readCheck place
  | eol => exact sound.readEol place detected
  | finished | aborted =>
    have reads : line.read character = line := by
      simp [Line.read, kRecvChar, place]
    rwa [reads]

theorem Sound.next (sound : line.Sound transmission) (acked : line.acked = true)
    (place : line.receiver.place = .start)
    (more : line.current + 1 < transmission.packets.length) :
    Sound transmission
      { line with current := line.current + 1, answered := false, acked := false } := by
  obtain ⟨packet, known, quote, stage⟩ := sound
  rw [Stage, place] at stage
  obtain ⟨empty, _, taken⟩ := stage
  obtain ⟨⟨lastN, _⟩, represents, isQuote⟩ := taken acked
  have base : transmission.before (line.current + 1) =
      (transmission.before line.current).take packet := by
    rw [Transmission.before, List.take_add_one, known, List.foldl_append]
    rfl
  refine ⟨_, List.getElem?_eq_getElem more, ?_, ?_⟩
  · intro _
    change line.receiver.hisQuote = (transmission.before (line.current + 1)).quote
    rw [base]
    exact isQuote
  · rw [Stage, place]
    refine ⟨empty, .inl ⟨?_, ?_⟩, nofun⟩
    · change line.receiver.lastN ≠ ((line.current + 1) % 64 : Nat)
      omega
    · change Represents line.receiver (transmission.before (line.current + 1))
      rw [base]
      exact represents

theorem Sound.step {event : Event} {next : Line} (sound : line.Sound transmission)
    (step : Step transmission line event next) (recoverable : line.Recoverable event) :
    next.Sound transmission := by
  cases step with
  | character detected => exact sound.read detected recoverable
  | next _ more => exact sound.next recoverable.1 recoverable.2 more

theorem begin_sound {receiver : Receiver} : (begin receiver).Sound transmission := by
  refine ⟨_, rfl, ?_, rfl, .inl ⟨?_, ?_⟩, nofun⟩
  · intro _
    rfl
  · exact nofun
  · exact ⟨rfl, rfl, .zero⟩

end Line

end UBootV210.Load
