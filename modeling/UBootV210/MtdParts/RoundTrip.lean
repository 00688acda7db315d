import UBootV210.MtdParts.PartText
import UBootV210.MtdParts.Reachable

/-! # Reading back a table

The text that `generate_mtdparts` writes is read again by `parse_mtdparts`. Partitions with
the same offset come back in the opposite order. -/

namespace UBootV210.MtdParts

open KeyOrder Library

def MtdDevice.resorted (dev : MtdDevice) : MtdDevice :=
  { dev with parts := reinsert partKey [] dev.parts }

theorem addParts_eq {dev : MtdDevice} {parts : List PartInfo}
    (once : ((dev.parts ++ parts).filter (partKey · = 0)).length ≤ 1) :
    addParts dev parts = some ⟨dev.id, dev.numParts + UInt16.ofNat parts.length,
      reinsert partKey dev.parts parts⟩ := by
  induction parts generalizing dev with
  | nil =>
    have same : dev.numParts + UInt16.ofNat 0 = dev.numParts := UInt16.add_zero _
    rw [List.length_nil, same]
    rfl
  | cons part parts induction =>
    rw [List.filter_append, List.filter_cons, List.length_append] at once
    have fresh : partKey part = 0 → dev.parts.filter (partKey · = 0) = [] := by
      grind [List.length_eq_zero_iff, List.length_cons]
    have kept : ((insertBefore partKey part dev.parts ++ parts).filter
        (partKey · = 0)).length ≤ 1 := by
      rw [List.filter_append, filter_insertBefore, List.length_append]
      grind
    have count : dev.numParts + 1 + UInt16.ofNat parts.length =
        dev.numParts + UInt16.ofNat (parts.length + 1) := by
      rw [UInt16.ofNat_add, UInt16.add_assoc, UInt16.add_comm 1]
      rfl
    rw [addParts, partSortAdd, sortAdd_of_fresh fresh, Option.map_some, Option.bind_eq_bind,
      Option.bind_some,
      @induction ⟨dev.id, dev.numParts + 1, insertBefore partKey part dev.parts⟩ kept,
      List.length_cons, count]
    rfl

theorem addParts_sorted_eq {dev : MtdDevice} (sorted : dev.Sorted) :
    addParts ⟨dev.id, 0, []⟩ dev.parts = some dev.resorted := by
  have count : 0 + UInt16.ofNat dev.parts.length = dev.numParts := by
    rw [UInt16.zero_add]
    apply UInt16.toNat_inj.mp
    rw [sorted.counted]
    exact UInt16.toNat_ofNat'
  rw [@addParts_eq ⟨dev.id, 0, []⟩ dev.parts sorted.once, count]
  rfl

def deviceText (dev : MtdDevice) : List UInt8 :=
  dev.id.mtdId.bytes ++ 58 :: partsText dev.numParts none 0 dev.parts

variable {devices : List MtdDevice}

section

variable {chips : Chips} {mtdids : List MtdId} {before : List MtdDevice} {dev : MtdDevice}
  {tail : List UInt8}

theorem deviceText_cut (plain : 58 ∉ dev.id.mtdId.bytes) :
    (deviceText dev ++ tail).takeWhile (· ≠ 58) = dev.id.mtdId.bytes ∧
      (deviceText dev ++ tail).dropWhile (· ≠ 58) =
        58 :: (partsText dev.numParts none 0 dev.parts ++ tail) := by
  have inside : ∀ byte ∈ dev.id.mtdId.bytes, decide (byte ≠ 58) = true := by
    grind
  rw [deviceText, List.append_assoc, List.cons_append, List.takeWhile_append_of_pos inside,
    List.dropWhile_append_of_pos inside, List.takeWhile_cons_of_neg (by simp),
    List.dropWhile_cons_of_neg (by simp), List.append_nil]
  exact ⟨rfl, rfl⟩

theorem deviceParse_text (reached : dev.Reached chips mtdids)
    (named : ∀ part ∈ dev.parts, part.autoName = false) (ends : EndsDevice tail)
    (absent : deviceFind before dev.id.type dev.id.num = none) :
    (Readable dev.numParts 0 dev.parts → deviceParse chips mtdids before (deviceText dev ++ tail) =
      .ok (some (dev.resorted, afterDevice tail))) ∧
    (¬ Readable dev.numParts 0 dev.parts →
      deviceParse chips mtdids before (deviceText dev ++ tail) = .ok none) := by
  obtain ⟨name, rest⟩ := @deviceText_cut dev tail reached.plain
  have counted := reached.counted
  have short := @length_parts_le dev.numParts none 0 dev.parts
  have some : 0 < dev.parts.length := List.length_pos_iff.mpr reached.nonempty
  obtain ⟨reads, refuses⟩ := @parseParts_text chips dev.id dev.numParts tail none 0
    ((partsText dev.numParts none 0 dev.parts ++ tail).length + 1) dev.parts reached.accepted
    named ends (by rw [counted]; omega) (by rw [List.length_append]; omega)
  rw [deviceParse, rest, name, reached.known]
  dsimp only
  rw [firstOffset, absent]
  dsimp only
  rw [Exec.ok_bind]
  constructor
  · intro readable
    have notWrapped : dev.parts.length % 65536 ≠ 0 := by
      have count := (readable_iff.mp readable).1
      omega
    have read : parseParts chips dev.id _ 0 _ = _ := reads readable
    rw [read, Exec.ok_bind]
    dsimp only
    rw [if_neg notWrapped, addParts_sorted_eq reached.toSorted]
    rfl
  · intro unreadable
    have read : parseParts chips dev.id _ 0 _ = _ := refuses unreadable
    rw [read]
    rfl

/-! ## The table -/

def devicesText (devices : List MtdDevice) : List UInt8 := (devicesPieces devices).flatten

def devicesTail (devices : List MtdDevice) : List UInt8 :=
  if devices ≠ [] then 59 :: devicesText devices else []

theorem devicesText_cons :
    devicesText (dev :: devices) = deviceText dev ++ devicesTail devices := by
  rw [devicesText, devicesPieces, devicesTail, deviceText, partsText, devicesText]
  by_cases last : devices = []
  · rw [last]
    simp [devicesPieces]
  · simp [last]

theorem endsDevice_devicesTail (devices : List MtdDevice) : EndsDevice (devicesTail devices) := by
  rw [devicesTail]
  split
  · exact .inr ⟨_, rfl⟩
  · exact .inl rfl

theorem afterDevice_devicesTail : afterDevice (devicesTail devices) = devicesText devices := by
  rw [devicesTail]
  split
  · rfl
  case isFalse none =>
    rw [not_not] at none
    rw [none]
    rfl

theorem deviceText_ne_nil : deviceText dev ≠ [] := by
  rw [deviceText]
  simp

theorem length_devices_le (devices : List MtdDevice) :
    devices.length ≤ (devicesText devices).length := by
  induction devices with
  | nil => exact Nat.zero_le _
  | cons dev devices induction =>
    have first : 0 < (deviceText dev).length := List.length_pos_iff.mpr deviceText_ne_nil
    grind [devicesText_cons, devicesTail]

theorem readDevices_cons :
    readDevices chips mtdids (fuel + 1) before (devicesText (dev :: devices)) =
      deviceParse chips mtdids before (deviceText dev ++ devicesTail devices) >>= fun parsed =>
        parsed.elim (.ok none) fun parsed =>
          if (deviceFind before parsed.1.id.type parsed.1.id.num).isSome then .ok none
          else readDevices chips mtdids fuel (before ++ [parsed.1]) parsed.2 := by
  rw [devicesText_cons]
  obtain ⟨first, rest, start⟩ := List.exists_cons_of_ne_nil deviceText_ne_nil
  rw [start, List.cons_append, readDevices]
  · cases deviceParse chips mtdids before (first :: (rest ++ devicesTail devices)) with
    | error fault => rfl
    | ok parsed =>
      cases parsed with
      | none => rfl
      | some parsed => rfl
  · intro empty
    cases empty

theorem deviceFind_append_none (absent : deviceFind devices type num = none)
    (other : ¬ (dev.id.type = type ∧ dev.id.num = num)) :
    deviceFind (devices ++ [dev]) type num = none := by
  grind [deviceFind_eq_none_iff]

theorem readDevices_text {fuel : Nat} {devices : List MtdDevice}
    (reached : Reached chips mtdids devices)
    (named : ∀ dev ∈ devices, ∀ part ∈ dev.parts, part.autoName = false)
    (absent : ∀ dev ∈ devices, deviceFind before dev.id.type dev.id.num = none)
    (enough : devices.length < fuel) :
    ((∀ dev ∈ devices, Readable dev.numParts 0 dev.parts) →
      readDevices chips mtdids fuel before (devicesText devices) =
        .ok (some (before ++ devices.map MtdDevice.resorted))) ∧
    (¬ (∀ dev ∈ devices, Readable dev.numParts 0 dev.parts) →
      readDevices chips mtdids fuel before (devicesText devices) = .ok none) := by
  induction devices generalizing before fuel with
  | nil =>
    obtain ⟨more, rfl⟩ : ∃ more, fuel = more + 1 := ⟨fuel - 1, by omega⟩
    constructor
    · intro _
      rw [List.map_nil, List.append_nil]
      rfl
    · simp
  | cons dev devices induction =>
    obtain ⟨more, rfl⟩ : ∃ more, fuel = more + 1 := ⟨fuel - 1, by omega⟩
    rw [List.length_cons] at enough
    have here := absent dev List.mem_cons_self
    have first := reached.each dev List.mem_cons_self
    have firstNamed := named dev List.mem_cons_self
    have ends := endsDevice_devicesTail devices
    obtain ⟨apart, distinct⟩ := List.pairwise_cons.mp reached.distinct
    have others := @induction (before ++ [dev.resorted]) more
      ⟨fun other member => reached.each other (List.mem_cons_of_mem _ member), distinct⟩
      (fun other member => named other (List.mem_cons_of_mem _ member))
      (fun other member => deviceFind_append_none
        (absent other (List.mem_cons_of_mem _ member)) (apart other member)) (by omega)
    rw [readDevices_cons]
    by_cases readable : Readable dev.numParts 0 dev.parts
    · have goesOn : ∀ result,
          readDevices chips mtdids more (before ++ [dev.resorted]) (devicesText devices) = result →
          (deviceParse chips mtdids before (deviceText dev ++ devicesTail devices) >>=
            fun parsed => parsed.elim (.ok none) fun parsed =>
              if (deviceFind before parsed.1.id.type parsed.1.id.num).isSome then .ok none
              else readDevices chips mtdids more (before ++ [parsed.1]) parsed.2) = result := by
        intro result later
        rw [(deviceParse_text first firstNamed ends here).1 readable, Exec.ok_bind,
          Option.elim_some, afterDevice_devicesTail]
        have new : deviceFind before dev.resorted.id.type dev.resorted.id.num = none := here
        grind
      grind
    · constructor
      · grind
      · intro _
        rw [(deviceParse_text first firstNamed ends here).2 readable]
        rfl

theorem zero_notMem_memsizeFormat (size : UInt64) : 0 ∉ memsizeFormat size := by
  have digits : ∀ num : UInt64, (0 : UInt8) ∉ decimal num := by
    intro num member
    exact absurd (mem_decimal member).1 (by decide)
  rw [memsizeFormat]
  grind

theorem zero_notMem_partsPieces {numParts : UInt16} {prevPart : Option PartInfo} {partCnt : Nat}
    {parts : List PartInfo} : 0 ∉ (partsPieces numParts prevPart partCnt parts).flatten := by
  induction parts generalizing prevPart partCnt with
  | nil => simp [partsPieces]
  | cons part parts induction =>
    have size := zero_notMem_memsizeFormat part.size
    have offset := zero_notMem_memsizeFormat part.offset
    have name := part.name.nulFree
    rw [partsPieces, partPieces]
    simp only [List.flatten_append, List.mem_append, not_or]
    refine ⟨⟨⟨⟨⟨?_, ?_⟩, ?_⟩, ?_⟩, ?_⟩, induction⟩
    · simpa using size
    · simp_all
    · simp_all
    · simp
    · simp

theorem zero_notMem_devicesText : 0 ∉ devicesText devices := by
  induction devices with
  | nil => simp [devicesText, devicesPieces]
  | cons dev devices induction =>
    have parts := @zero_notMem_partsPieces dev.numParts none 0 dev.parts
    have name := dev.id.mtdId.nulFree
    rw [devicesText_cons, deviceText, devicesTail, partsText]
    simp_all

theorem zero_notMem_mtdpartsText : 0 ∉ mtdpartsText devices := by
  rw [mtdpartsText]
  split
  · simp
  · rw [List.mem_append, not_or]
    exact ⟨by decide, zero_notMem_devicesText⟩

/-! ## Reading what was written -/

theorem parseMtdparts_text (reached : Reached chips mtdids devices)
    (named : ∀ dev ∈ devices, ∀ part ∈ dev.parts, part.autoName = false) :
    (∃ ret, parseMtdparts chips mtdids (mtdpartsText devices) = .ok (ret, devices)) ↔
      ∀ dev ∈ devices, Readable dev.numParts 0 dev.parts ∧ dev.resorted = dev := by
  by_cases none : devices = []
  · rw [none]
    exact iff_of_true ⟨1, rfl⟩ fun dev member => absurd member List.not_mem_nil
  have text : mtdpartsText devices = mtdpartsPrefix ++ devicesText devices := by
    rw [mtdpartsText, if_neg none]
    rfl
  have some : devicesText devices ≠ [] := by
    obtain ⟨dev, others, equal⟩ := List.exists_cons_of_ne_nil none
    rw [equal, devicesText_cons]
    simp [deviceText_ne_nil]
  have front : (mtdpartsPrefix ++ devicesText devices).take 9 = mtdpartsPrefix :=
    List.take_left' rfl
  have back : (mtdpartsPrefix ++ devicesText devices).drop 9 = devicesText devices :=
    List.drop_left' rfl
  have short := length_devices_le devices
  obtain ⟨good, bad⟩ := @readDevices_text chips mtdids []
    ((mtdpartsPrefix ++ devicesText devices).length + 1) devices reached named
    (fun dev member => rfl) (by rw [List.length_append]; omega)
  rw [parseMtdparts, text, front, back, if_neg (not_not.mpr rfl), if_neg some]
  by_cases readable : ∀ dev ∈ devices, Readable dev.numParts 0 dev.parts
  · have unchanged : devices.map MtdDevice.resorted = devices ↔
        ∀ dev ∈ devices, dev.resorted = dev := by
      conv =>
        lhs
        rhs
        rw [← List.map_id devices]
      exact List.map_inj_left
    rw [good readable, List.nil_append]
    constructor
    · rintro ⟨ret, equal⟩
      have same := unchanged.mp (congrArg Prod.snd (Except.ok.inj equal))
      exact fun dev member => ⟨readable dev member, same dev member⟩
    · intro every
      rw [unchanged.mpr fun dev member => (every dev member).2]
      exact ⟨0, rfl⟩
  · refine iff_of_false ?_ fun every => readable fun dev member => (every dev member).1
    rw [bad readable]
    rintro ⟨ret, equal⟩
    have empty : [] = devices := congrArg Prod.snd (Except.ok.inj equal)
    exact none empty.symm

/-- There are fewer than 65536 partitions, none is below the smallest size, none but the last
has the size that stands for the rest of the device, and those that start at one place are the
same from the first to the last as from the last to the first. -/
structure MtdDevice.Rereadable (dev : MtdDevice) : Prop where
  counted : dev.parts.length < 65536
  large : ∀ part ∈ dev.parts, ¬ part.size < minPartSize
  given : ∀ part ∈ dev.parts.dropLast, part.size ≠ sizeRemaining
  alike : ∀ part ∈ dev.parts, (dev.parts.filter (·.offset = part.offset)).reverse =
    dev.parts.filter (·.offset = part.offset)

theorem resorted_eq_iff (sorted : dev.Sorted) : dev.resorted = dev ↔
    ∀ part ∈ dev.parts, (dev.parts.filter (·.offset = part.offset)).reverse =
      dev.parts.filter (·.offset = part.offset) := by
  have same : dev.resorted = dev ↔ reinsert partKey [] dev.parts = dev.parts := by
    constructor
    · intro equal
      exact congrArg MtdDevice.parts equal
    · intro equal
      rw [MtdDevice.resorted, equal]
  have filters : ∀ part : PartInfo, dev.parts.filter (partKey · = partKey part) =
      dev.parts.filter (·.offset = part.offset) := by
    intro part
    apply List.filter_congr
    intro other _
    simp only [decide_eq_decide]
    exact UInt64.toNat_inj
  rw [same, reinsert_eq_self_iff sorted.ordered]
  constructor
  · intro every part _
    rw [← filters]
    exact every (partKey part)
  · intro every value
    by_cases used : ∃ part ∈ dev.parts, partKey part = value
    · obtain ⟨part, member, rfl⟩ := used
      simp_all
    · grind [List.filter_eq_nil_iff]

theorem rereadable_iff (sorted : dev.Sorted) :
    dev.Rereadable ↔ Readable dev.numParts 0 dev.parts ∧ dev.resorted = dev := by
  have counted := sorted.counted
  rw [readable_iff, resorted_eq_iff sorted]
  constructor
  · intro rereadable
    have few := rereadable.counted
    exact ⟨⟨by omega, rereadable.large, rereadable.given⟩, rereadable.alike⟩
  · rintro ⟨⟨count, large, given⟩, alike⟩
    exact ⟨by omega, large, given, alike⟩

end

def Table.RoundTrips (table : Table) (chips : Chips) (buf : List UInt8) (buflen : UInt32) : Prop :=
  ∃ next, generateMtdparts table.devices buf buflen = .ok (0, next) ∧
    ∃ ret, parseMtdparts chips table.mtdids (CString.ofBytes next).bytes = .ok (ret, table.devices)

/-- A table that the commands have made, with names from the user, comes back exactly if every
device is rereadable. -/
theorem roundTrips_iff {board : Board} {commands : List Command} {table : Table}
    {buf : List UInt8} {buflen : UInt32} (run : Run (Step board) Table.initial commands table)
    (named : ∀ dev ∈ table.devices, ∀ part ∈ dev.parts, part.autoName = false)
    (sized : buf.length = buflen.toNat)
    (large : (mtdpartsText table.devices).length < buflen.toNat) :
    table.RoundTrips board.chips buf buflen ↔ ∀ dev ∈ table.devices, dev.Rereadable := by
  have reached := reached_of_run run
  have written : ∃ rest, generateMtdparts table.devices buf buflen =
      .ok (0, mtdpartsText table.devices ++ 0 :: rest) := by
    by_cases none : table.devices = []
    · obtain ⟨first, rest, equal⟩ := List.exists_cons_of_length_pos (by omega : 0 < buf.length)
      refine ⟨rest, ?_⟩
      rw [generateMtdparts, mtdpartsText, if_pos none, if_pos none, equal]
      rfl
    · rw [mtdpartsText, if_neg none, List.length_append] at large
      have nine : mtdpartsPrefix.length = 9 := rfl
      exact generateMtdparts_of_fits none sized (by omega)
  obtain ⟨rest, returned⟩ := written
  have text : (CString.ofBytes (mtdpartsText table.devices ++ 0 :: rest)).bytes =
      mtdpartsText table.devices := by
    rw [CString.ofBytes_cut zero_notMem_mtdpartsText]
  have conditions : (∀ dev ∈ table.devices, dev.Rereadable) ↔
      ∀ dev ∈ table.devices, Readable dev.numParts 0 dev.parts ∧ dev.resorted = dev := by
    constructor
    · intro every dev member
      exact (rereadable_iff (reached.each dev member).toSorted).mp (every dev member)
    · intro every dev member
      exact (rereadable_iff (reached.each dev member).toSorted).mpr (every dev member)
  rw [conditions, ← parseMtdparts_text reached named, Table.RoundTrips]
  simp_all

def exampleBoard : Board := ⟨exampleChips, fun _ _ => 0x10000000, none⟩

/-- The variables `mtdids` and `mtdparts` are set to nand0=n and a text, and are read. -/
def readingTable (parts : List UInt8) : Command :=
  ⟨some (.ofBytes [110, 97, 110, 100, 48, 61, 110]), some (.ofBytes (mtdpartsPrefix ++ parts)),
    .list⟩

def exampleTable (numParts : UInt16) (parts : List PartInfo) (text : List UInt8) : Table :=
  ⟨[exampleId], [⟨exampleId, numParts, parts⟩], [110, 97, 110, 100, 48, 61, 110],
    mtdpartsPrefix ++ text ++ List.replicate (503 - text.length) 0⟩

-- mtdparts=n:1m(a),1m@4m(b)ro
theorem roundTrips_iff_gap : ∃ table, Run (Step exampleBoard) Table.initial
    [readingTable [110, 58, 49, 109, 40, 97, 41, 44, 49, 109, 64, 52, 109, 40, 98, 41, 114, 111]]
    table ∧ table.RoundTrips exampleChips (List.replicate 64 0) 64 := by
  have step : Step exampleBoard Table.initial
      (readingTable [110, 58, 49, 109, 40, 97, 41, 44, 49, 109, 64, 52, 109, 40, 98, 41, 114, 111])
      (exampleTable 2 [⟨.ofBytes [97], false, 0x100000, 0, 0⟩,
          ⟨.ofBytes [98], false, 0x100000, 0x400000, 1⟩]
        [110, 58, 49, 109, 40, 97, 41, 44, 49, 109, 64, 52, 109, 40, 98, 41, 114, 111]) := by
    change Command.run _ _ _ = _
    decide +kernel
  have run := Run.cons step (.nil _)
  refine ⟨_, run, (roundTrips_iff run (by decide +kernel) rfl (by decide +kernel)).mpr ?_⟩
  intro dev member
  cases List.mem_singleton.mp member
  exact ⟨by decide +kernel, by decide +kernel, by decide +kernel, by decide +kernel⟩

-- mtdparts=n:1m(a),1m@1m(b),1m@1m(c): the partitions b and c change their places
theorem roundTrips_same_offset : ∃ table, Run (Step exampleBoard) Table.initial
    [readingTable [110, 58, 49, 109, 40, 97, 41, 44, 49, 109, 64, 49, 109, 40, 98, 41, 44,
      49, 109, 64, 49, 109, 40, 99, 41]] table ∧
    (∀ dev ∈ table.devices, ∀ part ∈ dev.parts, part.autoName = false) ∧
    (mtdpartsText table.devices).length < 64 ∧
    ¬ table.RoundTrips exampleChips (List.replicate 64 0) 64 := by
  obtain ⟨a, first⟩ : ∃ a : PartInfo, a = ⟨.ofBytes [97], false, 0x100000, 0, 0⟩ := ⟨_, rfl⟩
  obtain ⟨b, second⟩ : ∃ b : PartInfo, b = ⟨.ofBytes [98], false, 0x100000, 0x100000, 0⟩ :=
    ⟨_, rfl⟩
  obtain ⟨c, third⟩ : ∃ c : PartInfo, c = ⟨.ofBytes [99], false, 0x100000, 0x100000, 0⟩ :=
    ⟨_, rfl⟩
  obtain ⟨text, written⟩ : ∃ text : List UInt8, text = [110, 58, 49, 109, 40, 97, 41, 44,
    49, 109, 64, 49, 109, 40, 98, 41, 44, 49, 109, 64, 49, 109, 40, 99, 41] := ⟨_, rfl⟩
  have step : Step exampleBoard Table.initial (readingTable text)
      (exampleTable 3 [a, c, b] text) := by
    change Command.run _ _ _ = _
    rw [first, second, third, written]
    decide +kernel
  rw [← written]
  refine ⟨_, .cons step (.nil _), ?_, ?_, ?_⟩
  · rw [first, second, third, written]
    decide +kernel
  · rw [first, second, third, written]
    decide +kernel
  · rintro ⟨next, returned, ret, parsed⟩
    have generated : generateMtdparts [⟨exampleId, 3, [a, c, b]⟩] (List.replicate 64 0) 64 =
        .ok (0, mtdpartsText [⟨exampleId, 3, [a, c, b]⟩] ++ 0 :: List.replicate 32 0) := by
      rw [first, second, third]
      decide +kernel
    have swapped : parseMtdparts exampleChips [exampleId] (CString.ofBytes
        (mtdpartsText [⟨exampleId, 3, [a, c, b]⟩] ++ 0 :: List.replicate 32 0)).bytes =
        .ok (0, [⟨exampleId, 3, [a, b, c]⟩]) := by
      rw [first, second, third]
      decide +kernel
    change generateMtdparts [⟨exampleId, 3, [a, c, b]⟩] _ _ = _ at returned
    rw [generated] at returned
    cases returned
    change parseMtdparts exampleChips [exampleId] _ = .ok (ret, [⟨exampleId, 3, [a, c, b]⟩])
      at parsed
    have equal : b = c := by
      grind
    rw [second, third] at equal
    exact absurd equal (by decide)

end UBootV210.MtdParts
