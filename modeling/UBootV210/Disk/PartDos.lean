import UBootV210.Foundation.CallTree

/-! # DOS partition tables

`disk/part_dos.c`: the tables of a disk, from the master boot record through
the extended partitions. A C `int` is its 32 bits. -/

namespace UBootV210.Disk

abbrev Block := ℕ → UInt8

inductive Interface
  | ide
  | sata
  | atapi
  | scsi
  | usb
  | doc
  | other
  deriving DecidableEq

structure BlockDevice where
  interface : Interface
  dev : ℕ
  blockRead : UInt32 → Option Block

def le32ToInt (block : Block) (offset : ℕ) : UInt32 :=
  ((block (offset + 3)).toUInt32 <<< 24) + ((block (offset + 2)).toUInt32 <<< 16) +
    ((block (offset + 1)).toUInt32 <<< 8) + (block offset).toUInt32

structure Partition where
  bootInd : UInt8
  sysInd : UInt8
  start4 : UInt32
  size4 : UInt32

def isExtended (kind : UInt8) : Bool :=
  kind = 0x5 || kind = 0xf || kind = 0x85

def isBootable (partition : Partition) : Bool :=
  partition.bootInd = 0x80

def partitions (block : Block) : List Partition :=
  [0x1be, 0x1ce, 0x1de, 0x1ee].map fun offset =>
    { bootInd := block offset
      sysInd := block (offset + 4)
      start4 := le32ToInt block (offset + 8)
      size4 := le32ToInt block (offset + 12) }

inductive BlockType
  | none
  | mbr
  | pbr
  deriving DecidableEq

/-- `test_block_type`; its loop never moves on from the first entry. -/
def testBlockType (block : Block) : BlockType :=
  if block 0x1fe ≠ 0x55 ∨ block 0x1ff ≠ 0xaa then .none
  else if block 0x1be ≠ 0 ∧ block 0x1be ≠ 0x80 then
    if [block 0x36, block 0x37, block 0x38] = [0x46, 0x41, 0x54] ∨
        [block 0x52, block 0x53, block 0x54, block 0x55, block 0x56] =
          [0x46, 0x41, 0x54, 0x33, 0x32] then .pbr
    else .none
  else .mbr

/-- What `print_partition_extended` prints, with `%d` for a sector, a number, a start and a
size. -/
inductive Line
  | unreadable (sector : Int32)
  | badSignature (low high : UInt8)
  | part (number start size : Int32) (signature : UInt32) (kind : UInt8)
      (extended bootable : Bool)

def countPart (sector number : UInt32) (partition : Partition) : UInt32 :=
  if sector = 0 ∨ (partition.sysInd ≠ 0 ∧ isExtended partition.sysInd = false) then number + 1
  else number

def printOnePart (partition : Partition) (sector number signature : UInt32) : Line :=
  .part number.toInt32 (sector + partition.start4).toInt32 partition.size4.toInt32 signature
    partition.sysInd (isExtended partition.sysInd) (isBootable partition)

def printTable (sector signature : UInt32) : UInt32 → List Partition → List Line × UInt32
  | number, [] => ([], number)
  | number, partition :: rest =>
    let (lines, last) := printTable sector signature (countPart sector number partition) rest
    if partition.sysInd ≠ 0 ∧ (sector = 0 ∨ isExtended partition.sysInd = false) then
      (printOnePart partition sector number signature :: lines, last)
    else (lines, last)

/-- The sector of the table that an extended entry points to, and the base of
the tables behind it. -/
def followed (sector relative : UInt32) (partition : Partition) : UInt32 × UInt32 :=
  let lbaStart := partition.start4 + relative
  (lbaStart, if sector = 0 then lbaStart else relative)

/-- `none` when `fuel` calls inside each other are not enough. -/
def printPartitionExtended (device : BlockDevice) :
    ℕ → UInt32 × UInt32 → UInt32 → UInt32 → Option (List Line)
  | 0, _, _, _ => none
  | fuel + 1, (sector, relative), number, signature =>
    match device.blockRead sector with
    | none => some [.unreadable sector.toInt32]
    | some buffer =>
      if testBlockType buffer ≠ .mbr then
        some [.badSignature (buffer 0x1fe) (buffer 0x1ff)]
      else
        let signature := if sector = 0 then le32ToInt buffer 0x1b8 else signature
        let (lines, number) := printTable sector signature number (partitions buffer)
        let extended := (partitions buffer).filter fun partition => isExtended partition.sysInd
        let below := extended.mapM fun partition =>
          printPartitionExtended device fuel (followed sector relative partition) number signature
        below.map fun below => lines ++ below.flatten

/-- `disk_partition_t`, for a configuration without partition UUIDs. -/
structure PartitionInfo where
  blksz : ℕ
  start : UInt32
  size : UInt32
  name : String
  type : String
  bootable : Bool

def Interface.driveName : Interface → String
  | .ide | .sata | .atapi => "hd"
  | .scsi => "sd"
  | .usb => "usbd"
  | .doc => "docd"
  | .other => "xx"

def partitionInfo (device : BlockDevice) (partition : Partition) (sector number : UInt32) :
    PartitionInfo where
  blksz := 512
  start := sector + partition.start4
  size := partition.size4
  name := device.interface.driveName ++ String.singleton (Char.ofNat (97 + device.dev)) ++
    toString number.toInt32
  type := "U-Boot"
  bootable := isBootable partition

/-- The first loop of `get_partition_info_extended`: the entry with its number,
or the number behind the table. -/
def findPart (sector which : UInt32) : UInt32 → List Partition → Partition ⊕ UInt32
  | number, [] => .inr number
  | number, partition :: rest =>
    if partition.bootInd &&& ~~~0x80 = 0 ∧ partition.sysInd ≠ 0 ∧ number = which ∧
        isExtended partition.sysInd = false then .inl partition
    else findPart sector which (countPart sector number partition) rest

/-- The inner option is the return value, `none` for `-1`. -/
def getPartitionInfoExtended (device : BlockDevice) (which : UInt32) :
    ℕ → (UInt32 × UInt32) × UInt32 → Option (Option PartitionInfo)
  | 0, _ => none
  | fuel + 1, ((sector, relative), number) =>
    match device.blockRead sector with
    | none => some none
    | some buffer =>
      if buffer 0x1fe ≠ 0x55 ∨ buffer 0x1ff ≠ 0xaa then some none
      else match findPart sector which number (partitions buffer) with
        | .inl partition => some (some (partitionInfo device partition sector which))
        | .inr number =>
          match (partitions buffer).find? fun partition => isExtended partition.sysInd with
          | some partition =>
            getPartitionInfoExtended device which fuel (followed sector relative partition, number)
          | none => some none

/-! ## The tables that are gone through -/

def tablesBehind (device : BlockDevice) : UInt32 × UInt32 → List (UInt32 × UInt32)
  | (sector, relative) =>
    match device.blockRead sector with
    | none => []
    | some buffer =>
      if testBlockType buffer ≠ .mbr then []
      else ((partitions buffer).filter fun partition => isExtended partition.sysInd).map
        (followed sector relative)

/-- The table behind a table that does not have the partition, with its number. -/
def tableBehind (device : BlockDevice) (which : UInt32) :
    (UInt32 × UInt32) × UInt32 → List ((UInt32 × UInt32) × UInt32)
  | ((sector, relative), number) =>
    match device.blockRead sector with
    | none => []
    | some buffer =>
      if buffer 0x1fe ≠ 0x55 ∨ buffer 0x1ff ≠ 0xaa then []
      else match findPart sector which number (partitions buffer) with
        | .inl _ => []
        | .inr number =>
          (((partitions buffer).find? fun partition => isExtended partition.sysInd).map
            fun partition => (followed sector relative partition, number)).toList

variable {device : BlockDevice} {which number signature : UInt32}

theorem isSome_mapM {Entry Result : Type} {call : Entry → Option Result} {entries : List Entry} :
    (entries.mapM call).isSome ↔ ∀ entry ∈ entries, (call entry).isSome := by
  induction entries with
  | nil => simp
  | cons entry entries induction =>
    cases first : call entry <;> cases rest : entries.mapM call <;>
      simp_all [List.mapM_cons]

theorem printPartitionExtended_isSome {fuel : ℕ} {table : UInt32 × UInt32} :
    (printPartitionExtended device fuel table number signature).isSome ↔
      EndsWithin (tablesBehind device) fuel table := by
  induction fuel generalizing table number signature with
  | zero => simp [printPartitionExtended, EndsWithin]
  | succ fuel induction =>
    rcases table with ⟨sector, relative⟩
    simp only [printPartitionExtended, EndsWithin, tablesBehind]
    cases device.blockRead sector with
    | none => simp
    | some buffer =>
      by_cases mbr : testBlockType buffer = .mbr
      · simp only [mbr, ne_eq, not_true_eq_false, if_false, Option.isSome_map, isSome_mapM,
          induction, List.forall_mem_map]
      · simp [mbr]

theorem getPartitionInfoExtended_isSome :
    (getPartitionInfoExtended device which fuel table).isSome ↔
      EndsWithin (tableBehind device which) fuel table := by
  induction fuel generalizing table with
  | zero => simp [getPartitionInfoExtended, EndsWithin]
  | succ fuel induction =>
    rcases table with ⟨⟨sector, relative⟩, number⟩
    simp only [getPartitionInfoExtended, EndsWithin, tableBehind]
    cases device.blockRead sector with
    | none => simp
    | some buffer =>
      by_cases signed : buffer 0x1fe ≠ 0x55 ∨ buffer 0x1ff ≠ 0xaa
      · simp [signed]
      · simp only [signed, if_false]
        rcases findPart sector which number (partitions buffer) with partition | number
        · simp
        · cases (partitions buffer).find? fun partition => isExtended partition.sysInd <;>
            simp [induction]

/-- The walks return exactly on the disks where no table leads back to itself:
for printing with the same base, for the search also with the same number. -/
theorem extended_walks_return_iff (device : BlockDevice) (table : UInt32 × UInt32)
    (number : UInt32) :
    (∀ signature, (∃ fuel lines,
        printPartitionExtended device fuel table number signature = some lines) ↔
      ¬ ComesBack (tablesBehind device) table) ∧
    ∀ which, (∃ fuel result,
        getPartitionInfoExtended device which fuel (table, number) = some result) ↔
      ¬ ComesBack (tableBehind device which) (table, number) := by
  constructor
  · intro signature
    simp [← exists_endsWithin_iff, ← @printPartitionExtended_isSome device number signature,
      Option.isSome_iff_exists]
  · intro which
    simp [← exists_endsWithin_iff, ← getPartitionInfoExtended_isSome, Option.isSome_iff_exists]

def equalTables : BlockDevice where
  interface := .usb
  dev := 0
  blockRead := fun _ => some fun offset =>
    if offset = 0x1c2 then 0x5 else if offset = 0x1c6 then 1 else if offset = 0x1fe then 0x55
    else if offset = 0x1ff then 0xaa else 0

theorem equalTables_never_return :
    (∀ fuel, printPartitionExtended equalTables fuel (0, 0) 1 0 = none) ∧
      ∀ fuel, getPartitionInfoExtended equalTables 1 fuel ((0, 0), 1) = none := by
  have printed : ComesBack (tablesBehind equalTables) (0, 0) :=
    ⟨(2, 1), .head (b := (1, 1)) (by decide) (.single (by decide)), .single (by decide)⟩
  have sought : ComesBack (tableBehind equalTables 1) ((0, 0), 1) :=
    ⟨((2, 1), 5), .head (b := ((1, 1), 5)) (by decide) (.single (by decide)), .single (by decide)⟩
  constructor
  · intro fuel
    rw [← Option.not_isSome_iff_eq_none, printPartitionExtended_isSome]
    exact fun within => within.not_comesBack printed
  · intro fuel
    rw [← Option.not_isSome_iff_eq_none, getPartitionInfoExtended_isSome]
    exact fun within => within.not_comesBack sought

/-! ## Listing and access -/

/-- A partition that is not extended is listed with this start and size, as the user reads
them. -/
def Listed (lines : List Line) (number : UInt32) (start size : ℕ) : Prop :=
  ∃ first count signature kind bootable,
    Line.part number.toInt32 first count signature kind false bootable ∈ lines ∧
      first.toInt = start ∧ count.toInt = size

/-- Exactly the listed partitions are found, by number, start and size. -/
def Agrees (lines : List Line) (search : UInt32 → Option (Option PartitionInfo)) : Prop :=
  ∀ which, ∃ result, search which = some result ∧ ∀ start size, Listed lines which start size ↔
    ∃ info, result = some info ∧ info.start.toNat = start ∧ info.size.toNat = size

/-- In each table the flags of the entries are those that both walks want, their starts and
sizes are printed without a sign, there is at most one extended entry, and the number stays
an `int`. -/
inductive Regular (device : BlockDevice) : UInt32 × UInt32 → UInt32 → Prop
  | unreadable {sector relative number : UInt32} (read : device.blockRead sector = none) :
    Regular device (sector, relative) number
  | unsigned {sector relative number : UInt32} {buffer : Block}
    (read : device.blockRead sector = some buffer)
    (unsigned : buffer 0x1fe ≠ 0x55 ∨ buffer 0x1ff ≠ 0xaa) :
    Regular device (sector, relative) number
  | table {sector relative number : UInt32} {buffer : Block}
    (read : device.blockRead sector = some buffer) (kind : testBlockType buffer = .mbr)
    (flags : ∀ partition ∈ partitions buffer, partition.sysInd ≠ 0 →
      isExtended partition.sysInd = false → partition.bootInd &&& ~~~0x80 = 0)
    (unsigned : ∀ partition ∈ partitions buffer, partition.sysInd ≠ 0 →
      isExtended partition.sysInd = false →
      (sector + partition.start4).toNat < 2 ^ 31 ∧ partition.size4.toNat < 2 ^ 31)
    (single : ((partitions buffer).filter fun partition => isExtended partition.sysInd).length ≤ 1)
    (room : number.toNat + 4 < 2 ^ 31)
    (behind : ∀ partition ∈ partitions buffer, isExtended partition.sysInd →
      Regular device (followed sector relative partition)
        ((partitions buffer).foldl (countPart sector) number)) :
    Regular device (sector, relative) number

section Table

variable {sector first : UInt32} {entries : List Partition}

theorem toNat_countPart (sector : UInt32) (entry : Partition) (room : first.toNat + 1 < 2 ^ 32) :
    (countPart sector first entry).toNat = first.toNat +
      if sector = 0 ∨ (entry.sysInd ≠ 0 ∧ isExtended entry.sysInd = false) then 1 else 0 := by
  rw [countPart]
  split
  · exact (UInt32.toNat_add first 1).trans (Nat.mod_eq_of_lt room)
  · rfl

theorem printTable_snd : (printTable sector signature first entries).2 =
    entries.foldl (countPart sector) first := by
  induction entries generalizing first with
  | nil => rfl
  | cons entry entries induction =>
    simp only [printTable, List.foldl_cons, ← induction]
    split <;> rfl

theorem toInt32_inj {left right : UInt32} : left.toInt32 = right.toInt32 ↔ left = right :=
  ⟨congrArg Int32.toUInt32, congrArg UInt32.toInt32⟩

theorem toInt_toInt32 {word : UInt32} (small : word.toNat < 2 ^ 31) :
    word.toInt32.toInt = word.toNat := by
  have half : 2 * word.toBitVec.toNat < 2 ^ 32 := by
    rw [UInt32.toNat_toBitVec]
    omega
  exact BitVec.toInt_eq_toNat_of_lt half

theorem listed_cons : Listed (printTable sector signature first (entry :: entries)).1 number start
      size ↔
    (entry.sysInd ≠ 0 ∧ isExtended entry.sysInd = false ∧ number = first ∧
      (sector + entry.start4).toInt32.toInt = start ∧ entry.size4.toInt32.toInt = size) ∨
    Listed (printTable sector signature (countPart sector first entry) entries).1 number start
      size := by
  simp only [Listed, printTable]
  split
  · rename_i used
    simp only [List.mem_cons, printOnePart, Line.part.injEq]
    constructor
    · rintro ⟨_, _, _, _, _, same | listed, values⟩
      · obtain ⟨sameNumber, rfl, rfl, _, _, kind, _⟩ := same
        exact .inl ⟨used.1, kind.symm, toInt32_inj.mp sameNumber, values⟩
      · exact .inr ⟨_, _, _, _, _, listed, values⟩
    · rintro (⟨_, kind, rfl, values⟩ | ⟨_, _, _, _, _, listed, values⟩)
      · exact ⟨_, _, _, _, _, .inl ⟨rfl, rfl, rfl, rfl, rfl, kind.symm, rfl⟩, values⟩
      · exact ⟨_, _, _, _, _, .inr listed, values⟩
  · rename_i unused
    rw [iff_or_self]
    exact fun ⟨used, kind, _⟩ => absurd ⟨used, .inr kind⟩ unused

theorem printTable_numbers (room : first.toNat + entries.length < 2 ^ 32) :
    first.toNat ≤ (entries.foldl (countPart sector) first).toNat ∧
      ∀ number start size, Listed (printTable sector signature first entries).1 number start size →
        first.toNat ≤ number.toNat ∧
          number.toNat < (entries.foldl (countPart sector) first).toNat := by
  induction entries generalizing first with
  | nil => simp [printTable, Listed]
  | cons entry entries induction =>
    rw [List.length_cons] at room
    have counted := @toNat_countPart first sector entry (by omega)
    obtain ⟨later, listed⟩ := @induction (countPart sector first entry)
      (by split at counted <;> omega)
    rw [List.foldl_cons]
    refine ⟨by omega, fun number start size shown => ?_⟩
    rcases listed_cons.mp shown with ⟨used, kind, rfl, _⟩ | shown
    · rw [if_pos (.inr ⟨used, kind⟩)] at counted
      omega
    · have := listed number start size shown
      omega

theorem findPart_listed (room : first.toNat + entries.length < 2 ^ 32)
    (flags : ∀ entry ∈ entries, entry.sysInd ≠ 0 → isExtended entry.sysInd = false →
      entry.bootInd &&& ~~~0x80 = 0)
    (unsigned : ∀ entry ∈ entries, entry.sysInd ≠ 0 → isExtended entry.sysInd = false →
      (sector + entry.start4).toNat < 2 ^ 31 ∧ entry.size4.toNat < 2 ^ 31) :
    match findPart sector which first entries with
    | .inl found => ∀ start size, Listed (printTable sector signature first entries).1 which start
        size ↔ (sector + found.start4).toNat = start ∧ found.size4.toNat = size
    | .inr last => last = entries.foldl (countPart sector) first ∧
        ∀ start size, ¬ Listed (printTable sector signature first entries).1 which start size := by
  induction entries generalizing first with
  | nil => simp [findPart, printTable, Listed]
  | cons entry entries induction =>
    rw [List.length_cons] at room
    have counted := @toNat_countPart first sector entry (by omega)
    have within : (countPart sector first entry).toNat + entries.length < 2 ^ 32 := by
      split at counted <;> omega
    simp only [findPart, listed_cons]
    by_cases here : entry.bootInd &&& ~~~0x80 = 0 ∧ entry.sysInd ≠ 0 ∧ first = which ∧
        isExtended entry.sysInd = false
    · rw [if_pos here]
      obtain ⟨_, used, rfl, kind⟩ := here
      rw [if_pos (.inr ⟨used, kind⟩)] at counted
      intro start size
      have above : ¬ Listed (printTable sector signature (countPart sector first entry) entries).1
          first start size := fun shown => by
        have := ((printTable_numbers within).2 first start size shown).1
        omega
      obtain ⟨start31, size31⟩ := unsigned entry List.mem_cons_self used kind
      simp only [above, used, kind, ne_eq, not_false_eq_true, true_and, or_false,
        toInt_toInt32 start31, toInt_toInt32 size31, Nat.cast_inj]
    · rw [if_neg here]
      have skipped : ∀ start size : ℕ, ¬ (entry.sysInd ≠ 0 ∧ isExtended entry.sysInd = false ∧
          which = first ∧ (sector + entry.start4).toInt32.toInt = start ∧
            entry.size4.toInt32.toInt = size) :=
        fun start size ⟨used, kind, same, _⟩ =>
          here ⟨flags entry List.mem_cons_self used kind, used, same.symm, kind⟩
      simp only [skipped, false_or, List.foldl_cons]
      exact induction within (fun entry member => flags entry (List.mem_cons_of_mem _ member))
        fun entry member => unsigned entry (List.mem_cons_of_mem _ member)

end Table

theorem listed_append : Listed (lines ++ more) number start size ↔
      Listed lines number start size ∨ Listed more number start size := by
  simp only [Listed, List.mem_append, or_and_right, exists_or]

theorem walks_agree (regular : Regular device table number) (signature : UInt32) :
    ∃ fuel lines, printPartitionExtended device fuel table number signature = some lines ∧
      (∀ which start size, Listed lines which start size → number.toNat ≤ which.toNat) ∧
      Agrees lines fun which => getPartitionInfoExtended device which fuel (table, number) := by
  induction regular generalizing signature with
  | unreadable read =>
    exact ⟨1, _, by simp [printPartitionExtended, read]; rfl, by simp [Listed],
      by simp [Agrees, Listed, getPartitionInfoExtended, read]⟩
  | @unsigned _ _ _ buffer read unsigned =>
    have kind : testBlockType buffer = .none := by rw [testBlockType, if_pos unsigned]
    exact ⟨1, _, by simp [printPartitionExtended, read, kind]; rfl, by simp [Listed],
      by simp [Agrees, Listed, getPartitionInfoExtended, read, unsigned]⟩
  | @table sector relative number buffer read kind flags unsigned single room behind induction =>
    have signed : ¬ (buffer 0x1fe ≠ 0x55 ∨ buffer 0x1ff ≠ 0xaa) := fun unsigned => by
      rw [testBlockType, if_pos unsigned] at kind
      cases kind
    have within : number.toNat + (partitions buffer).length < 2 ^ 32 := by
      simp only [partitions, List.length_map, List.length_cons, List.length_nil]
      omega
    generalize disk : (if sector = 0 then le32ToInt buffer 0x1b8 else signature) = signature
    obtain ⟨first, listed⟩ := @printTable_numbers signature sector number _ within
    -- The second loops: the table behind the extended entry, if there is one.
    obtain ⟨fuel, lower, printed, above, found⟩ : ∃ fuel lower,
        ((partitions buffer).filter fun partition => isExtended partition.sysInd).mapM
          (fun partition => printPartitionExtended device fuel (followed sector relative partition)
            ((partitions buffer).foldl (countPart sector) number) signature) = some lower ∧
        (∀ which start size, Listed lower.flatten which start size →
          ((partitions buffer).foldl (countPart sector) number).toNat ≤ which.toNat) ∧
        Agrees lower.flatten fun which =>
          match (partitions buffer).find? (fun partition => isExtended partition.sysInd) with
          | some partition => getPartitionInfoExtended device which fuel
              (followed sector relative partition,
                (partitions buffer).foldl (countPart sector) number)
          | none => some none := by
      rw [← List.head?_filter]
      rcases extended : (partitions buffer).filter fun partition => isExtended partition.sysInd with
        _ | ⟨entry, _ | ⟨other, rest⟩⟩
      · simp only [extended]
        exact ⟨0, [], rfl, by simp [Listed], by simp [Agrees, Listed]⟩
      · simp only [extended]
        have member := List.mem_filter.mp (extended ▸ List.mem_singleton_self entry)
        obtain ⟨fuel, lines, printed, agree⟩ := induction entry member.1 member.2 signature
        exact ⟨fuel, [lines], by simp only [List.mapM_cons, printed]; rfl, by simpa using agree⟩
      · simp [extended] at single
    refine ⟨fuel + 1, (printTable sector signature number (partitions buffer)).1 ++ lower.flatten,
      ?_, fun which start size shown => ?_, fun which => ?_⟩
    · simp only [printPartitionExtended, read, kind, ne_eq, not_true_eq_false, if_false, disk,
        printTable_snd, printed, Option.map_some]
    · rcases listed_append.mp shown with shown | shown
      · exact (listed which start size shown).1
      · exact first.trans (above which start size shown)
    · have searched := @findPart_listed which signature sector number _ within flags unsigned
      simp only [getPartitionInfoExtended, read, if_neg signed, listed_append]
      cases outcome : findPart sector which number (partitions buffer) with
      | inl entry =>
        rw [outcome] at searched
        refine ⟨_, rfl, fun start size => ?_⟩
        have here := (searched _ _).mpr ⟨rfl, rfl⟩
        have apart : ¬ Listed lower.flatten which start size := fun shown =>
          absurd ((listed which _ _ here).2) (not_lt.mpr (above which start size shown))
        simp [apart, searched start size, partitionInfo]
      | inr last =>
        rw [outcome] at searched
        obtain ⟨rfl, absent⟩ := searched
        simpa only [absent, false_or] using found which

theorem listed_iff_found (regular : Regular device (0, 0) 1) :
    ∃ fuel lines, printPartitionExtended device fuel (0, 0) 1 0 = some lines ∧
      Agrees lines fun which => getPartitionInfoExtended device which fuel ((0, 0), 1) := by
  obtain ⟨fuel, lines, printed, _, agree⟩ := walks_agree regular 0
  exact ⟨fuel, lines, printed, agree⟩

/-- A table with one Linux partition of two sectors, in its second entry. -/
def oneEntry (bootInd : UInt8) : BlockDevice where
  interface := .usb
  dev := 0
  blockRead := fun _ => some fun offset =>
    if offset = 0x1ce then bootInd else if offset = 0x1d2 then 0x83 else if offset = 0x1da then 2
    else if offset = 0x1fe then 0x55 else if offset = 0x1ff then 0xaa else 0

theorem listed_iff_found_oneEntry :
    ∃ fuel lines, printPartitionExtended (oneEntry 0x80) fuel (0, 0) 1 0 = some lines ∧
      Agrees lines fun which =>
        getPartitionInfoExtended (oneEntry 0x80) which fuel ((0, 0), 1) :=
  listed_iff_found (.table rfl (by decide) (by decide) (by decide) (by decide) (by decide)
    fun partition member extended => absurd extended (by revert partition; decide))

/-- The second entry is listed whatever its flag is, and not found with such a flag. -/
theorem oneEntry_not_found :
    (∀ fuel lines, printPartitionExtended (oneEntry 1) (fuel + 1) (0, 0) 1 0 = some lines →
      Listed lines 2 0 2) ∧
    ∀ fuel, getPartitionInfoExtended (oneEntry 1) 2 (fuel + 1) ((0, 0), 1) = some none := by
  constructor
  · rintro fuel lines printed
    cases printed
    exact ⟨_, _, _, _, _, List.mem_singleton_self _, rfl, rfl⟩
  · intro fuel
    rfl

end UBootV210.Disk
