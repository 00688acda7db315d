import UBootV210.Foundation.StaticBuffer

/-! # Reading the FAT

`fs/fat/fat.c`: the entries of the table are read through a buffer of six blocks. -/

namespace UBootV210.Fat

open StaticBuffer

inductive FatSize
  | fat12
  | fat16
  | fat32
  deriving DecidableEq

namespace FatSize

def bits : FatSize → ℕ
  | fat12 => 12
  | fat16 => 16
  | fat32 => 32

/-- The value that marks a bad cluster; the end marks follow it. -/
def badCluster : FatSize → ℕ
  | fat12 => 0xff7
  | fat16 => 0xfff7
  | fat32 => 0xffffff7

def limit (size : FatSize) : ℕ := if size ≠ fat32 then 0xfff0 else 0xffffff0

end FatSize

def checkClust (value : ℕ) (size : FatSize) : Bool := value ≤ 1 || value ≥ size.limit

/-- The layout in `fsdata`, in sectors of the size of a block. -/
structure Volume where
  fatsize : FatSize
  sectSize : ℕ
  fatlength : ℕ
  fatSect : ℕ
  sectSize_dvd : 512 ∣ sectSize
  sectSize_pos : 0 < sectSize
  fat_lt : fatSect + fatlength < 2 ^ 32

/-- A volume whose table has an entry for every cluster. -/
structure Filesystem extends Volume where
  lastCluster : ℕ
  holds : (lastCluster + 1) * fatsize.bits ≤ 8 * (fatlength * sectSize)
  last_lt : lastCluster < fatsize.badCluster

/-- `fatbufnum` and `fatbuf`; no number stands for -1. -/
structure Cache where
  fatbufnum : Option ℕ
  fatbuf : ℕ → UInt8

/-- `disk_read`: what is stored for a first block and a number of blocks, if it succeeds. -/
abbrev DiskRead := ℕ × ℕ → Option (ℕ → UInt8)

def FATBUFBLOCKS : ℕ := 6

namespace Volume

variable (volume : Volume)

def fatbufsize : ℕ := volume.sectSize * FATBUFBLOCKS

def entriesPerBuffer : ℕ :=
  match volume.fatsize with
  | .fat12 => volume.fatbufsize * 2 / 3
  | .fat16 => volume.fatbufsize / 2
  | .fat32 => volume.fatbufsize / 4

def bufnum (entry : ℕ) : ℕ := entry / volume.entriesPerBuffer

/-- The first block and the number of blocks that `get_fatent` asks the disk for. The
difference of the lengths is one of 32-bit words. -/
def fatRequest (bufnum : ℕ) : ℕ × ℕ :=
  let startblock := bufnum * FATBUFBLOCKS
  (startblock + volume.fatSect,
    if startblock + FATBUFBLOCKS > volume.fatlength then
      (volume.fatlength + 2 ^ 32 - startblock) % 2 ^ 32
    else FATBUFBLOCKS)

def bufferEntry (fatbuf : ℕ → UInt8) (offset : ℕ) : Exec ℕ :=
  let half := fun index => loadHalf volume.fatbufsize fatbuf (2 * index)
  match volume.fatsize with
  | .fat32 => do
    let low ← half (2 * offset)
    let high ← half (2 * offset + 1)
    pure (low + 65536 * high)
  | .fat16 => half offset
  | .fat12 =>
    let off16 := offset * 3 / 4
    match offset % 4 with
    | 0 => do
      let ret ← half off16
      pure (ret &&& 0xfff)
    | 1 => do
      let val1 ← half off16
      let val2 ← half (off16 + 1)
      pure ((val2 &&& 0xff) <<< 4 ||| (val1 &&& 0xf000) >>> 12)
    | 2 => do
      let val1 ← half off16
      let val2 ← half (off16 + 1)
      pure ((val2 &&& 0xf) <<< 8 ||| (val1 &&& 0xff00) >>> 8)
    | _ => do
      let ret ← half off16
      pure ((ret &&& 0xfff0) >>> 4)

/-- `get_fatent`. The disk stores the blocks that it is asked for in the buffer. -/
def getFatent (disk : DiskRead) (cache : Cache) (entry : ℕ) :
    Exec (ℕ × Cache) :=
  let bufnum := volume.bufnum entry
  let offset := entry - bufnum * volume.entriesPerBuffer
  if cache.fatbufnum = some bufnum then do
    pure (← volume.bufferEntry cache.fatbuf offset, cache)
  else
    let request := volume.fatRequest bufnum
    if request.2 > FATBUFBLOCKS then .error .outOfBounds
    else match disk request with
      | none => pure (0, cache)
      | some bytes => do
        let fatbuf := fun place =>
          if place < request.2 * volume.sectSize then bytes place else cache.fatbuf place
        pure (← volume.bufferEntry fatbuf offset, ⟨some bufnum, fatbuf⟩)

end Volume

/-- An entry of a table, by the layout of the format. -/
def fatEntry (size : FatSize) (table : ℕ → UInt8) (entry : ℕ) : ℕ :=
  match size with
  | .fat12 =>
    if entry % 2 = 0 then half table (entry + entry / 2) % 2 ^ 12
    else half table (entry + entry / 2) / 2 ^ 4
  | .fat16 => half table (2 * entry)
  | .fat32 => half table (4 * entry) + 65536 * half table (4 * entry + 2)

section

variable {size : FatSize} {table other : ℕ → UInt8} {entry bytes : ℕ}

theorem shiftLeft_or (high : ℕ) (fits : low < 2 ^ width) :
    high <<< width ||| low = high * 2 ^ width + low := by
  rw [← Nat.shiftLeft_add_eq_or_of_lt fits, Nat.shiftLeft_eq]

theorem and_shiftRight (width : ℕ) (high : mask >>> shift = 2 ^ width - 1)
    (word : value < 2 ^ shift * 2 ^ width) : (value &&& mask) >>> shift = value / 2 ^ shift := by
  rw [Nat.shiftRight_and_distrib, high, Nat.and_two_pow_sub_one_eq_mod, Nat.shiftRight_eq_div_pow,
    Nat.mod_eq_of_lt (Nat.div_lt_of_lt_mul word)]

theorem half_lt (table : ℕ → UInt8) (address : ℕ) : half table address < 65536 := by
  have low := (table address).toNat_lt
  have high := (table (address + 1)).toNat_lt
  simp only [half]
  omega

theorem half_succ (table : ℕ → UInt8) (address : ℕ) : half table (address + 1) =
      half table address / 256 + 256 * (half table (address + 2) % 256) := by
  have low := (table address).toNat_lt
  have middle := (table (address + 1)).toNat_lt
  have high := (table (address + 2)).toNat_lt
  simp only [half, Nat.add_assoc, Nat.reduceAdd]
  omega

theorem fatEntry_congr (same : ∀ place < bytes, other place = table place)
    (inside : (entry + 1) * size.bits ≤ 8 * bytes) :
    fatEntry size other entry = fatEntry size table entry := by
  have halves {address : ℕ} (room : address + 2 ≤ bytes) :
      half other address = half table address :=
    half_congr (same _ (by omega)) (same _ (by omega))
  cases size <;> simp only [FatSize.bits] at inside <;> simp only [fatEntry]
  · rw [halves (by omega)]
  · rw [halves (by omega)]
  · rw [halves (by omega), halves (by omega)]

theorem fatEntry_shift (whole : 8 * bytes = first * size.bits) :
    fatEntry size (fun place => table (bytes + place)) entry =
      fatEntry size table (first + entry) := by
  have halves (address : ℕ) :
      half (fun place => table (bytes + place)) address = half table (bytes + address) := rfl
  cases size <;> simp only [FatSize.bits] at whole <;> simp only [fatEntry, halves]
  · have start : bytes + (entry + entry / 2) = first + entry + (first + entry) / 2 := by omega
    have parity : (first + entry) % 2 = entry % 2 := by omega
    rw [start, parity]
  · rw [show bytes + 2 * entry = 2 * (first + entry) by omega]
  · rw [show bytes + 4 * entry = 4 * (first + entry) by omega,
      show bytes + (4 * entry + 2) = 4 * (first + entry) + 2 by omega]

end

namespace Volume

variable {volume : Volume} {table fatbuf : ℕ → UInt8} {offset : ℕ}

theorem fatbufsize_eq : 8 * volume.fatbufsize = volume.entriesPerBuffer * volume.fatsize.bits := by
  obtain ⟨count, size⟩ := volume.sectSize_dvd
  rcases kind : volume.fatsize <;>
    simp only [entriesPerBuffer, kind, FatSize.bits, fatbufsize, FATBUFBLOCKS, size] <;> omega

theorem entriesPerBuffer_ge : 768 ≤ volume.entriesPerBuffer := by
  obtain ⟨count, size⟩ := volume.sectSize_dvd
  have positive := volume.sectSize_pos
  rcases kind : volume.fatsize <;>
    simp only [entriesPerBuffer, kind, fatbufsize, FATBUFBLOCKS, size] <;> omega

theorem bufferEntry_eq (inside : offset < volume.entriesPerBuffer) :
    volume.bufferEntry fatbuf offset = .ok (fatEntry volume.fatsize fatbuf offset) := by
  have room : (offset + 1) * volume.fatsize.bits ≤ 8 * volume.fatbufsize := by
    rw [fatbufsize_eq]
    exact Nat.mul_le_mul_right _ inside
  have blocks : 6 ∣ volume.fatbufsize := Nat.dvd_mul_left _ _
  have load (index : ℕ) (fits : 2 * index + 2 ≤ volume.fatbufsize) :
      loadHalf volume.fatbufsize fatbuf (2 * index) = .ok (half fatbuf (2 * index)) :=
    loadHalf_of_inside fits
  rcases kind : volume.fatsize <;> simp only [kind, FatSize.bits] at room <;>
    simp only [bufferEntry, kind, fatEntry]
  · have first := half_lt fatbuf (2 * (offset * 3 / 4))
    have later := half_succ fatbuf (2 * (offset * 3 / 4))
    have place : 2 * (offset * 3 / 4 + 1) = 2 * (offset * 3 / 4) + 2 := by omega
    have rest : offset % 4 = 0 ∨ offset % 4 = 1 ∨ offset % 4 = 2 ∨ offset % 4 = 3 := by omega
    rcases rest with rest | rest | rest | rest <;> simp only [rest]
    · rw [load _ (by omega), Exec.ok_bind, show 0xfff = 2 ^ 12 - 1 from rfl,
        Nat.and_two_pow_sub_one_eq_mod, if_pos (by omega),
        show offset + offset / 2 = 2 * (offset * 3 / 4) by omega]
      rfl
    · rw [load _ (by omega), Exec.ok_bind, load (offset * 3 / 4 + 1) (by omega), Exec.ok_bind,
        and_shiftRight 4 rfl first, show 0xff = 2 ^ 8 - 1 from rfl,
        Nat.and_two_pow_sub_one_eq_mod, shiftLeft_or, if_neg (by omega),
        show offset + offset / 2 = 2 * (offset * 3 / 4) + 1 by omega, later, place]
      · congr 1
        omega
      · omega
    · rw [load _ (by omega), Exec.ok_bind, load (offset * 3 / 4 + 1) (by omega), Exec.ok_bind,
        and_shiftRight 8 rfl first, show 0xf = 2 ^ 4 - 1 from rfl,
        Nat.and_two_pow_sub_one_eq_mod, shiftLeft_or, if_pos (by omega),
        show offset + offset / 2 = 2 * (offset * 3 / 4) + 1 by omega, later, place]
      · congr 1
        omega
      · omega
    · rw [load _ (by omega), Exec.ok_bind, and_shiftRight 12 rfl first,
        if_neg (by omega), show offset + offset / 2 = 2 * (offset * 3 / 4) by omega]
      rfl
  · exact load _ (by omega)
  · rw [load _ (by omega), Exec.ok_bind, load (2 * offset + 1) (by omega), Exec.ok_bind,
      show 2 * (2 * offset) = 4 * offset by omega,
      show 2 * (2 * offset + 1) = 4 * offset + 2 by omega]
    rfl

/-! ## The blocks that are asked for -/

variable {disk : DiskRead} {cache : Cache} {entry bufnum : ℕ}

theorem bufnum_mul_le (volume : Volume) (entry : ℕ) :
    volume.bufnum entry * volume.entriesPerBuffer ≤ entry := Nat.div_mul_le_self _ _

theorem offset_lt (volume : Volume) (entry : ℕ) :
    entry - volume.bufnum entry * volume.entriesPerBuffer < volume.entriesPerBuffer := by
  have positive := volume.entriesPerBuffer_ge
  rw [bufnum, ← Nat.mod_eq_sub_div_mul]
  exact Nat.mod_lt _ (by omega)

theorem fatRequest_of_le (inside : bufnum * FATBUFBLOCKS ≤ volume.fatlength) :
    volume.fatRequest bufnum = (bufnum * FATBUFBLOCKS + volume.fatSect,
      min FATBUFBLOCKS (volume.fatlength - bufnum * FATBUFBLOCKS)) := by
  have word := volume.fat_lt
  simp only [fatRequest, Prod.mk.injEq, true_and]
  split <;> omega

theorem fatRequest_of_gt (word : entry < 2 ^ 32)
    (outside : ¬ volume.bufnum entry * FATBUFBLOCKS ≤ volume.fatlength) :
    FATBUFBLOCKS < (volume.fatRequest (volume.bufnum entry)).2 := by
  have fat := volume.fat_lt
  have blocks : FATBUFBLOCKS = 6 := rfl
  have bound : volume.bufnum entry ≤ 2 ^ 32 / 768 :=
    Nat.div_le_div word.le volume.entriesPerBuffer_ge (by decide)
  have small := (Nat.mul_le_mul_right FATBUFBLOCKS bound).trans_lt (by decide : _ < 2 ^ 26)
  rw [fatRequest]
  dsimp only
  rw [if_pos (by omega)]
  omega

/-- The blocks are in the table, and the buffer is not left, exactly if the buffer holds the
entry or the six blocks of the entry do not start behind the table. -/
theorem getFatent_confined_iff (volume : Volume) (disk : DiskRead) (cache : Cache) {entry : ℕ}
    (word : entry < 2 ^ 32) :
    ((cache.fatbufnum ≠ some (volume.bufnum entry) →
        let request := volume.fatRequest (volume.bufnum entry)
        request.2 ≤ FATBUFBLOCKS ∧ volume.fatSect ≤ request.1 ∧
          request.1 + request.2 ≤ volume.fatSect + volume.fatlength) ∧
      ∃ result, volume.getFatent disk cache entry = .ok result) ↔
    cache.fatbufnum = some (volume.bufnum entry) ∨
      volume.bufnum entry * FATBUFBLOCKS ≤ volume.fatlength := by
  have offset := volume.offset_lt entry
  by_cases cached : cache.fatbufnum = some (volume.bufnum entry)
  · simp [cached, getFatent, bufferEntry_eq offset]
  · by_cases inside : volume.bufnum entry * FATBUFBLOCKS ≤ volume.fatlength
    · simp only [cached, inside, ne_eq, not_false_eq_true, forall_const, or_true, iff_true,
        getFatent, fatRequest_of_le inside, if_false]
      rw [if_neg (by omega)]
      refine ⟨⟨by omega, by omega, by omega⟩, ?_⟩
      split
      · exact ⟨_, rfl⟩
      · rw [bufferEntry_eq offset]
        exact ⟨_, rfl⟩
    · have large := fatRequest_of_gt word inside
      simp only [cached, inside, ne_eq, not_false_eq_true, forall_const, or_self, iff_false]
      omega

end Volume

def smallVolume (fatsize : FatSize) : Filesystem where
  fatsize := fatsize
  sectSize := 512
  fatlength := 1
  fatSect := 1
  lastCluster := 100
  sectSize_dvd := by decide
  sectSize_pos := by decide
  fat_lt := by decide
  holds := by cases fatsize <;> decide
  last_lt := by cases fatsize <;> decide

def emptyCache : Cache := ⟨none, fun _ => 0⟩

def tableDisk (table : ℕ → UInt8) : DiskRead := fun request =>
  some fun place => table ((request.1 - 1) * 512 + place)

/-- A table in which cluster 2 is followed by cluster 3, and that by the end mark. -/
def shortTable : ℕ → UInt8 := fun place =>
  if place = 4 then 3 else if place = 6 ∨ place = 7 then 0xff else 0

theorem getFatent_confined_short : ∃ result,
    (smallVolume .fat16).getFatent (tableDisk shortTable) emptyCache 2 = .ok result ∧
      result.1 = 3 := by
  obtain ⟨result, read⟩ := (((smallVolume .fat16).getFatent_confined_iff (tableDisk shortTable)
    emptyCache (by decide : 2 < 2 ^ 32)).mpr (.inr (by decide))).2
  refine ⟨result, read, ?_⟩
  cases read
  rfl

/-- The entry of a cluster behind the table, which passes `CHECK_CLUST`: all but five of the 32-bit
numbers are the blocks that are asked for. -/
theorem getFatent_leaves_table : checkClust 0x600 .fat16 = false ∧
      (smallVolume .fat16).fatRequest ((smallVolume .fat16).bufnum 0x600) = (7, 2 ^ 32 - 5) ∧
      ∀ disk, (smallVolume .fat16).getFatent disk emptyCache 0x600 = .error .outOfBounds := by
  refine ⟨by decide, by decide, fun disk => ?_⟩
  rfl

/-! ## Chains -/

namespace Volume

variable (volume : Volume)

def Serves (disk : DiskRead) (table : ℕ → UInt8) : Prop :=
  ∀ first count, first + count ≤ volume.fatlength →
    ∃ bytes, disk (first + volume.fatSect, count) = some bytes ∧
      ∀ place < count * volume.sectSize, bytes place = table (first * volume.sectSize + place)

def Coherent (table : ℕ → UInt8) (cache : Cache) : Prop :=
  ∀ bufnum, cache.fatbufnum = some bufnum → ∀ place < volume.fatbufsize,
    bufnum * volume.fatbufsize + place < volume.fatlength * volume.sectSize →
      cache.fatbuf place = table (bufnum * volume.fatbufsize + place)

def InTable (entry : ℕ) : Prop :=
  (entry + 1) * volume.fatsize.bits ≤ 8 * (volume.fatlength * volume.sectSize)

def value (table : ℕ → UInt8) (cluster : ℕ) : ℕ := fatEntry volume.fatsize table cluster

/-- What follows a cluster. The upper four bits of a FAT32 entry are reserved. -/
def link (table : ℕ → UInt8) (cluster : ℕ) : ℕ :=
  if volume.fatsize = .fat32 then volume.value table cluster % 2 ^ 28
  else volume.value table cluster

/-- The loop of `get_dentfromdir` and `get_contents` over the clusters. -/
def walkChain (disk : DiskRead) : ℕ → Cache → ℕ → Exec (List ℕ)
  | 0, _, _ => .error .diverges
  | fuel + 1, cache, cluster => do
    let (next, cache) ← volume.getFatent disk cache cluster
    if checkClust next volume.fatsize then pure [cluster]
    else pure (cluster :: (← walkChain disk fuel cache next))

variable {volume} {table : ℕ → UInt8} {disk : DiskRead} {cache : Cache} {entry : ℕ}

theorem value_lt (volume : Volume) (table : ℕ → UInt8) (entry : ℕ) :
    volume.value table entry < 2 ^ volume.fatsize.bits := by
  have first := half_lt table (entry + entry / 2)
  have second := half_lt table (2 * entry)
  have low := half_lt table (4 * entry)
  have high := half_lt table (4 * entry + 2)
  rcases kind : volume.fatsize <;> simp only [value, fatEntry, FatSize.bits, kind]
  · split <;> omega
  · omega
  · omega

theorem Coherent.bufferEntry (coherent : volume.Coherent table cache)
    (held : cache.fatbufnum = some (volume.bufnum entry)) (inside : volume.InTable entry) :
    volume.bufferEntry cache.fatbuf (entry - volume.bufnum entry * volume.entriesPerBuffer) =
      .ok (volume.value table entry) := by
  have offset := volume.offset_lt entry
  have split := volume.bufnum_mul_le entry
  generalize volume.bufnum entry = bufnum at *
  obtain ⟨rest, rfl⟩ := Nat.exists_eq_add_of_le split
  rw [Nat.add_sub_cancel_left] at offset ⊢
  have whole : 8 * (bufnum * volume.fatbufsize) =
      bufnum * volume.entriesPerBuffer * volume.fatsize.bits := by
    rw [Nat.mul_left_comm, fatbufsize_eq, Nat.mul_assoc]
  have room := Nat.mul_le_mul_right volume.fatsize.bits (Nat.succ_le_of_lt offset)
  rw [← fatbufsize_eq, Nat.succ_eq_add_one] at room
  rw [InTable, Nat.add_assoc, Nat.add_mul, ← whole] at inside
  rw [bufferEntry_eq offset, value, ← fatEntry_shift whole, @fatEntry_congr _ _ _ _ (min
    volume.fatbufsize (volume.fatlength * volume.sectSize - bufnum * volume.fatbufsize))]
  · intro place below
    exact coherent bufnum held place (by omega) (by omega)
  · omega

theorem bufnum_mul_fatbufsize (bufnum : ℕ) :
    bufnum * volume.fatbufsize = bufnum * FATBUFBLOCKS * volume.sectSize := by
  rw [fatbufsize, Nat.mul_comm volume.sectSize, Nat.mul_assoc]

theorem Serves.coherent (serves : volume.Serves disk table) (fatbuf : ℕ → UInt8) {bufnum : ℕ}
    (starts : bufnum * FATBUFBLOCKS ≤ volume.fatlength) :
    (volume.fatRequest bufnum).2 ≤ FATBUFBLOCKS ∧
    ∃ bytes, disk (volume.fatRequest bufnum) = some bytes ∧
      volume.Coherent table ⟨some bufnum, fun place =>
        if place < (volume.fatRequest bufnum).2 * volume.sectSize then bytes place
        else fatbuf place⟩ := by
  obtain ⟨bytes, read, same⟩ := serves (bufnum * FATBUFBLOCKS)
    (min FATBUFBLOCKS (volume.fatlength - bufnum * FATBUFBLOCKS)) (by omega)
  rw [fatRequest_of_le starts]
  refine ⟨by omega, bytes, read, ?_⟩
  rintro _ ⟨⟩ place below inTable
  rw [fatbufsize, Nat.mul_comm] at below
  rw [bufnum_mul_fatbufsize] at inTable ⊢
  have stored : place < min FATBUFBLOCKS (volume.fatlength - bufnum * FATBUFBLOCKS) *
      volume.sectSize := by
    rw [← Nat.mul_min_mul_right, lt_min_iff, Nat.sub_mul]
    omega
  dsimp only
  rw [if_pos stored, same place stored]

theorem getFatent_eq (serves : volume.Serves disk table) (coherent : volume.Coherent table cache)
    (inside : volume.InTable entry) :
    ∃ next, volume.getFatent disk cache entry = .ok (volume.value table entry, next) ∧
      volume.Coherent table next := by
  by_cases held : cache.fatbufnum = some (volume.bufnum entry)
  · rw [getFatent, if_pos held, coherent.bufferEntry held inside]
    exact ⟨cache, rfl, coherent⟩
  · have starts : volume.bufnum entry * FATBUFBLOCKS ≤ volume.fatlength := by
      have whole := Nat.mul_le_mul_right volume.fatsize.bits (volume.bufnum_mul_le entry)
      rw [Nat.mul_assoc, ← fatbufsize_eq, Nat.mul_left_comm, bufnum_mul_fatbufsize] at whole
      rw [InTable, Nat.add_mul] at inside
      exact Nat.le_of_mul_le_mul_right (by omega) volume.sectSize_pos
    obtain ⟨few, bytes, read, later⟩ := serves.coherent cache.fatbuf starts
    simp only [getFatent, if_neg held, read]
    rw [if_neg (by omega), later.bufferEntry rfl inside]
    exact ⟨_, rfl, later⟩

theorem Coherent.getFatent (coherent : volume.Coherent table cache)
    (serves : volume.Serves disk table) (word : entry < 2 ^ 32)
    (looked : volume.getFatent disk cache entry = .ok (found, next)) :
    volume.Coherent table next := by
  by_cases held : cache.fatbufnum = some (volume.bufnum entry)
  · rw [Volume.getFatent, if_pos held, Exec.bind_eq_ok_iff] at looked
    obtain ⟨_, _, same⟩ := looked
    cases same
    exact coherent
  · have starts : volume.bufnum entry * FATBUFBLOCKS ≤ volume.fatlength := by
      by_contra outside
      simp only [Volume.getFatent, if_neg held, if_pos (fatRequest_of_gt word outside)] at looked
      cases looked
    obtain ⟨few, bytes, read, later⟩ := serves.coherent cache.fatbuf starts
    simp only [Volume.getFatent, if_neg held, read] at looked
    rw [if_neg (by omega), Exec.bind_eq_ok_iff] at looked
    obtain ⟨_, _, same⟩ := looked
    cases same
    exact later

def lookups (volume : Volume) (disk : DiskRead) (cache : Cache) (entries : List ℕ) : Exec Cache :=
  entries.foldlM (fun cache entry => (volume.getFatent disk cache entry).map Prod.snd) cache

/-- An entry of a FAT12 table is decoded, whatever was looked up before. Lookups in the table
return. -/
theorem getFatent_fat12 (volume : Volume) (fat12 : volume.fatsize = .fat12)
    (serves : volume.Serves disk table) (fatbuf : ℕ → UInt8) (earlier : List ℕ)
    (words : ∀ entry ∈ earlier, entry < 2 ^ 32) :
    ((∀ entry ∈ earlier, volume.InTable entry) →
      ∃ cache, volume.lookups disk ⟨none, fatbuf⟩ earlier = .ok cache) ∧
    ∀ cache, volume.lookups disk ⟨none, fatbuf⟩ earlier = .ok cache → ∀ n, volume.InTable n →
      ∃ next, volume.getFatent disk cache n = .ok (fatEntry .fat12 table n, next) := by
  have start : volume.Coherent table ⟨none, fatbuf⟩ := nofun
  generalize (⟨none, fatbuf⟩ : Cache) = cache at start ⊢
  induction earlier generalizing cache with
  | nil =>
    refine ⟨fun _ => ⟨cache, rfl⟩, ?_⟩
    rintro _ ⟨⟩ n inside
    obtain ⟨next, looked, _⟩ := getFatent_eq serves start inside
    rw [looked, value, fat12]
    exact ⟨next, rfl⟩
  | cons entry earlier induction =>
    rw [List.forall_mem_cons] at words
    simp only [lookups, List.foldlM_cons, List.forall_mem_cons]
    constructor
    · rintro ⟨inside, others⟩
      obtain ⟨next, looked, later⟩ := getFatent_eq serves start inside
      rw [looked]
      exact (induction words.2 next later).1 others
    · intro last run
      obtain ⟨next, looked, rest⟩ := Exec.bind_eq_ok_iff.mp run
      obtain ⟨result, found, rfl⟩ := Exec.map_eq_ok looked
      exact (induction words.2 _ (start.getFatent serves words.1 found)).2 last rest

theorem serves_ones : (smallVolume .fat12).Serves (fun _ => some fun _ => 0xff) fun _ => 0xff :=
  fun _ _ _ => ⟨_, rfl, fun _ _ => rfl⟩

theorem serves_tableDisk (size : FatSize) (table : ℕ → UInt8) :
    (smallVolume size).Serves (tableDisk table) table :=
  fun _ _ _ => ⟨_, rfl, fun _ _ => rfl⟩

def countTable : ℕ → UInt8 := fun place => UInt8.ofNat (3 * place + 1)

theorem getFatent_fat12_five : ∃ cache next,
    (smallVolume .fat12).lookups (tableDisk countTable) emptyCache [2, 99] = .ok cache ∧
      (smallVolume .fat12).getFatent (tableDisk countTable) cache 5 = .ok (401, next) := by
  have decoded := (smallVolume .fat12).getFatent_fat12 rfl (serves_tableDisk _ countTable)
    emptyCache.fatbuf [2, 99] (by decide)
  obtain ⟨cache, looked⟩ := decoded.1 (by unfold InTable; decide)
  obtain ⟨next, read⟩ := decoded.2 cache looked 5 (by unfold InTable; decide)
  exact ⟨cache, next, looked, read⟩

theorem walkChain_ne_nil : volume.walkChain disk fuel cache cluster ≠ .ok [] := by
  cases fuel with
  | zero => simp [walkChain]
  | succ fuel =>
    intro returned
    rw [walkChain, Exec.bind_eq_ok_iff] at returned
    obtain ⟨⟨next, after⟩, _, rest⟩ := returned
    dsimp only at rest
    split at rest
    · cases rest
    · rw [Exec.bind_eq_ok_iff] at rest
      obtain ⟨_, _, equal⟩ := rest
      cases equal

end Volume

namespace Filesystem

variable (volume : Filesystem)

def IsCluster (cluster : ℕ) : Prop := 2 ≤ cluster ∧ cluster ≤ volume.lastCluster

instance (cluster : ℕ) : Decidable (volume.IsCluster cluster) := inferInstanceAs (Decidable (_ ∧ _))

inductive Chain (table : ℕ → UInt8) : ℕ → List ℕ → Prop
  | last {cluster : ℕ} : volume.IsCluster cluster →
      volume.fatsize.badCluster < volume.link table cluster → Chain table cluster [cluster]
  | link {cluster : ℕ} {chain : List ℕ} : volume.IsCluster cluster →
      Chain table (volume.link table cluster) chain → Chain table cluster (cluster :: chain)

variable {volume} {table : ℕ → UInt8} {disk : DiskRead} {cache : Cache} {entry : ℕ}

theorem inTable_of_le (inside : entry ≤ volume.lastCluster) : volume.InTable entry :=
  (Nat.mul_le_mul_right _ (Nat.succ_le_succ inside)).trans volume.holds

theorem Chain.ne_nil (chain : volume.Chain table cluster clusters) : clusters ≠ [] := by
  cases chain <;> simp

theorem Chain.isCluster (chain : volume.Chain table cluster clusters) :
    volume.IsCluster cluster := by
  cases chain <;> assumption

theorem walkChain_cons_iff (serves : volume.Serves disk table)
    (coherent : volume.Coherent table cache) (inside : cluster ≤ volume.lastCluster) :
    ∃ next, volume.Coherent table next ∧ ∀ rest,
      (∃ fuel, volume.walkChain disk fuel cache cluster = .ok (cluster :: rest)) ↔
        if checkClust (volume.value table cluster) volume.fatsize then rest = []
        else ∃ fuel, volume.walkChain disk fuel next (volume.value table cluster) = .ok rest := by
  obtain ⟨next, read, later⟩ := Volume.getFatent_eq serves coherent (inTable_of_le inside)
  refine ⟨next, later, fun rest => ?_⟩
  have turn (fuel : ℕ) : volume.walkChain disk (fuel + 1) cache cluster =
      if checkClust (volume.value table cluster) volume.fatsize then .ok [cluster]
      else (volume.walkChain disk fuel next (volume.value table cluster)).map (cluster :: ·) := by
    rw [Volume.walkChain, read, Exec.ok_bind]
    rfl
  by_cases checked : checkClust (volume.value table cluster) volume.fatsize
  · simp only [checked, if_true] at turn ⊢
    constructor
    · rintro ⟨_ | fuel, walked⟩
      · cases walked
      · rw [turn] at walked
        cases walked
        rfl
    · rintro rfl
      exact ⟨1, turn 0⟩
  · simp only [checked] at turn ⊢
    constructor
    · rintro ⟨_ | fuel, walked⟩
      · cases walked
      · rw [turn] at walked
        cases below : volume.walkChain disk fuel next (volume.value table cluster) <;>
          rw [below] at walked <;> cases walked
        exact ⟨fuel, below⟩
    · rintro ⟨fuel, walked⟩
      exact ⟨fuel + 1, by rw [turn, walked]; rfl⟩

/-- The walk visits the clusters of a chain and stops, exactly in tables other than FAT12 in which
no link of the chain reaches the bound of `CHECK_CLUST`, with its reserved bits. -/
theorem walkChain_exact_iff (serves : volume.Serves disk table)
    (coherent : volume.Coherent table cache) (chain : volume.Chain table start clusters) :
    (∃ fuel, volume.walkChain disk fuel cache start = .ok clusters) ↔ volume.fatsize ≠ .fat12 ∧
        ∀ cluster ∈ clusters.dropLast, volume.value table cluster < volume.fatsize.limit := by
  induction chain generalizing cache with
  | @last cluster isCluster mark =>
    obtain ⟨next, _, turn⟩ := walkChain_cons_iff serves coherent isCluster.2
    have value := volume.value_lt table cluster
    rw [turn]
    rcases kind : volume.fatsize <;>
      simp [Volume.link, kind, FatSize.badCluster, FatSize.bits, checkClust, FatSize.limit,
        Volume.walkChain_ne_nil] at * <;> omega
  | @link cluster rest isCluster chain induction =>
    obtain ⟨next, later, turn⟩ := walkChain_cons_iff serves coherent isCluster.2
    rw [turn, List.dropLast_cons_of_ne_nil chain.ne_nil, List.forall_mem_cons]
    by_cases small : volume.value table cluster < volume.fatsize.limit
    · have plain : volume.link table cluster = volume.value table cluster := by
        rw [Volume.link]
        split
        · rename_i kind
          simp only [kind, FatSize.limit] at small
          exact Nat.mod_eq_of_lt (by simp at small; omega)
        · rfl
      have linked := plain ▸ chain.isCluster.1
      rw [plain] at induction
      rw [if_neg (by simp [checkClust, small]; omega), induction later]
      simp [small]
    · rw [if_pos (by simp [checkClust]; omega)]
      simp [small, chain.ne_nil]

end Filesystem

theorem walkChain_exact_short :
    ∃ fuel, (smallVolume .fat16).walkChain (tableDisk shortTable) fuel emptyCache 2 =
      .ok [2, 3] := by
  have chain : (smallVolume .fat16).Chain shortTable 2 [2, 3] :=
    .link (by decide) (.last (by decide) (by decide))
  refine (Filesystem.walkChain_exact_iff (Volume.serves_tableDisk _ _) ?_ chain).mpr
    ⟨by decide, by decide⟩
  rintro _ ⟨⟩

/-- The end mark 0xFFF of a FAT12 table is taken for a cluster. -/
theorem walkChain_passes_mark : (smallVolume .fat12).Chain (fun _ => 0xff) 2 [2] ∧
      ∀ fuel, (smallVolume .fat12).walkChain (fun _ => some fun _ => 0xff) fuel emptyCache 2 ≠
        .ok [2] := by
  refine ⟨.last (by decide) (by decide), ?_⟩
  obtain ⟨next, _, turn⟩ := @Filesystem.walkChain_cons_iff _ _ _ emptyCache 2 Volume.serves_ones
    (by rintro _ ⟨⟩) (by decide)
  intro fuel returned
  have walks := (turn []).mp ⟨fuel, returned⟩
  rw [if_neg (by decide)] at walks
  obtain ⟨more, none⟩ := walks
  exact Volume.walkChain_ne_nil none

end UBootV210.Fat
