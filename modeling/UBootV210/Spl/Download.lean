import UBootV210.Spl.XmodemPoll

/-! # Programming a download into the NAND flash

An embedding of the part of `board_init_f_spl.c` that collects the payloads of a
download into pages and programs them, driven by the calls of `xmCallback`. The
calls into `nand.c` are recorded in order. -/

namespace UBootV210.Spl

def PAGE_SIZE : UInt32 := 2048
def PAGE_PER_BLK : UInt32 := 64
def BLOCK_SIZE : UInt32 := PAGE_SIZE * PAGE_PER_BLK

abbrev NandBuff := Vector UInt8 PAGE_SIZE.toNat

/-- A download that is started and the calls into `nand.c` that it makes. -/
inductive NandCall
  | downloadInit (base : UInt32)
  | nandErase (addr : UInt32)
  | nandWritePage8bit (buf : NandBuff) (addr : UInt32)
  deriving DecidableEq

/-- The globals of the page buffer, with the calls made so far. -/
structure Programmer where
  nandBuff : NandBuff
  buffOffset : UInt32
  nandAddress : UInt32
  calls : List NandCall
  deriving DecidableEq

namespace Programmer

def call (programmer : Programmer) (made : NandCall) : Programmer :=
  { programmer with calls := programmer.calls ++ [made] }

def eraseBlock (programmer : Programmer) : Programmer :=
  if programmer.nandAddress % BLOCK_SIZE = 0 then
    programmer.call (.nandErase programmer.nandAddress)
  else
    programmer

def programTonand (programmer : Programmer) : Programmer :=
  let programmer := programmer.eraseBlock
  { programmer.call (.nandWritePage8bit programmer.nandBuff programmer.nandAddress) with
    nandAddress := programmer.nandAddress + PAGE_SIZE }

def putByte (programmer : Programmer) (byte : UInt8) : Exec Programmer :=
  if inside : programmer.buffOffset.toNat < PAGE_SIZE.toNat then
    let programmer :=
      { programmer with
        nandBuff := programmer.nandBuff.set programmer.buffOffset.toNat byte inside
        buffOffset := programmer.buffOffset + 1 }
    if programmer.buffOffset ≥ PAGE_SIZE then
      .ok { programmer.programTonand with buffOffset := 0 }
    else
      .ok programmer
  else
    .error .outOfBounds

def tryProgram (programmer : Programmer) (buffer : List UInt8) (bfinish : Bool) :
    Exec Programmer :=
  if bfinish then
    .ok programmer.programTonand
  else
    buffer.foldlM putByte programmer

def xmCallback (programmer : Programmer) : Callback → Exec Programmer
  | .entry => .ok { programmer with buffOffset := 0 }
  | .soh _ buffer => programmer.tryProgram buffer false
  | .eot => programmer.tryProgram [] true
  | .can => .ok programmer

def downloadInit (programmer : Programmer) (base : UInt32) : Programmer :=
  { programmer.call (.downloadInit base) with nandAddress := base }

/-- A download with all its packets, from `doXmodemDownloadInit` to the end of the file. -/
def download (programmer : Programmer) (base : UInt32) (packets : List (UInt8 × List UInt8)) :
    Exec Programmer :=
  let payloads := packets.map fun packet => Callback.soh packet.1 packet.2
  (Callback.entry :: (payloads ++ [Callback.eot])).foldlM xmCallback (programmer.downloadInit base)

end Programmer

def programs (calls : List NandCall) : List (UInt32 × NandBuff) :=
  calls.filterMap fun
    | .nandWritePage8bit buf addr => some (addr, buf)
    | _ => none

@[simp] theorem programs_nil : programs [] = [] := rfl

@[simp] theorem programs_append (front back : List NandCall) :
    programs (front ++ back) = programs front ++ programs back := List.filterMap_append ..

@[simp] theorem programs_erase : programs [.nandErase addr] = [] := rfl

@[simp] theorem programs_write : programs [.nandWritePage8bit buf addr] = [(addr, buf)] := rfl

def downloadImage (packets : List (UInt8 × List UInt8)) : List UInt8 := packets.flatMap Prod.snd

theorem length_downloadImage (sized : ∀ packet ∈ packets, packet.2.length = XMODEM_DATA_SIZE) :
    (downloadImage packets).length = 128 * packets.length := by
  induction packets with
  | nil => rfl
  | cons packet packets induction =>
    have rest := induction fun other member => sized other (List.mem_cons_of_mem _ member)
    have first : packet.2.length = 128 := sized packet List.mem_cons_self
    rw [downloadImage] at rest
    rw [downloadImage, List.flatMap_cons, List.length_append, first, List.length_cons]
    omega

def imagePage (image : List UInt8) (index : Nat) : List UInt8 :=
  (image.drop (2048 * index)).take 2048

/-- The pages from an address on start with the pages of an image, one after the other. -/
def HoldPages (base : UInt32) (image : List UInt8) (pages : List (UInt32 × NandBuff)) : Prop :=
  ∀ index (inside : index < pages.length), pages[index].1 = base + 2048 * UInt32.ofNat index ∧
    imagePage image index <+: pages[index].2.toList

/-- The image is programmed with as many pages as it fills, the last one in part. -/
def ProgramsImage (base : UInt32) (image : List UInt8) (calls : List NandCall) : Prop :=
  (programs calls).length = (image.length + 2047) / 2048 ∧ HoldPages base image (programs calls)

section Pages

variable {base : UInt32} {image : List UInt8} {pages : List (UInt32 × NandBuff)} {index : Nat}

theorem imagePage_append (complete : 2048 * (index + 1) ≤ image.length) :
    imagePage (image ++ more) index = imagePage image index := by
  rw [imagePage, List.drop_append_of_le_length (by omega), List.take_append_of_le_length]
  · rfl
  · rw [List.length_drop]
    omega

theorem imagePage_last : imagePage image (image.length / 2048) =
    image.drop (2048 * (image.length / 2048)) := by
  apply List.take_of_length_le
  rw [List.length_drop]
  omega

theorem HoldPages.grow (held : HoldPages base image pages)
    (complete : pages.length ≤ image.length / 2048) : HoldPages base (image ++ more) pages := by
  intro index inside
  rw [imagePage_append (by omega)]
  exact held index inside

theorem HoldPages.concat (held : HoldPages base image pages)
    (addr_eq : addr = base + 2048 * UInt32.ofNat pages.length)
    (page : imagePage image pages.length <+: buf.toList) :
    HoldPages base image (pages ++ [(addr, buf)]) := by
  intro index inside
  rw [List.length_append, List.length_singleton] at inside
  by_cases before : index < pages.length
  · rw [List.getElem_append_left before]
    exact held index before
  · have last : index = pages.length := by omega
    subst last
    rw [List.getElem_append_right (Nat.le_refl _)]
    simp only [Nat.sub_self, List.getElem_cons_zero]
    exact ⟨addr_eq, page⟩

end Pages

namespace Programmer

/-! ## Collecting the bytes -/

structure Collected (before : List NandCall) (base : UInt32) (image : List UInt8)
    (programmer : Programmer) : Prop where
  buffOffset : programmer.buffOffset.toNat = image.length % 2048
  nandAddress : programmer.nandAddress = base + 2048 * UInt32.ofNat (image.length / 2048)
  buffered : programmer.nandBuff.toList.take (image.length % 2048) =
    image.drop (2048 * (image.length / 2048))
  calls : ∃ made, programmer.calls = before ++ made ∧
    (programs made).length = image.length / 2048 ∧ HoldPages base image (programs made)

theorem programTonand_calls (programmer : Programmer) :
    ∃ made, programmer.programTonand.calls = programmer.calls ++ made ∧
      programs made = [(programmer.nandAddress, programmer.nandBuff)] := by
  rw [programTonand, eraseBlock]
  split
  · refine ⟨[.nandErase programmer.nandAddress,
      .nandWritePage8bit programmer.nandBuff programmer.nandAddress], ?_, rfl⟩
    exact List.append_assoc ..
  · exact ⟨[.nandWritePage8bit programmer.nandBuff programmer.nandAddress], rfl, rfl⟩

theorem programTonand_buffOffset (programmer : Programmer) :
    programmer.programTonand.buffOffset = programmer.buffOffset := by
  rw [programTonand, eraseBlock]
  split <;> rfl

theorem programTonand_nandAddress (programmer : Programmer) :
    programmer.programTonand.nandAddress = programmer.nandAddress + PAGE_SIZE := by
  rw [programTonand, eraseBlock]
  split <;> rfl

variable {before : List NandCall} {base : UInt32} {image : List UInt8} {programmer : Programmer}

section

variable (collected : Collected before base image programmer)
include collected

theorem Collected.programTonand : ∃ made, programmer.programTonand.calls = before ++ made ∧
      (programs made).length = image.length / 2048 + 1 ∧ HoldPages base image (programs made) := by
  obtain ⟨made, calls_eq, length, held⟩ := collected.calls
  obtain ⟨last, last_eq, page_eq⟩ := programmer.programTonand_calls
  refine ⟨made ++ last, ?_, ?_, ?_⟩
  · rw [last_eq, calls_eq, List.append_assoc]
  · rw [programs_append, page_eq, List.length_append, length]
    rfl
  · rw [programs_append, page_eq]
    apply held.concat
    · rw [length, collected.nandAddress]
    · rw [length, imagePage_last, ← collected.buffered]
      exact List.take_prefix _ _

theorem Collected.store {buf : NandBuff} {byte : UInt8} (short : image.length % 2048 + 1 < 2048)
    (stored : buf.toList.take (image.length % 2048 + 1) =
      (image ++ [byte]).drop (2048 * (image.length / 2048))) :
    Collected before base (image ++ [byte])
      { programmer with nandBuff := buf, buffOffset := programmer.buffOffset + 1 } := by
  obtain ⟨made, calls_eq, length, held⟩ := collected.calls
  have offset := collected.buffOffset
  have page : (image ++ [byte]).length / 2048 = image.length / 2048 := by
    rw [List.length_append, List.length_singleton]
    omega
  have place : (image ++ [byte]).length % 2048 = image.length % 2048 + 1 := by
    rw [List.length_append, List.length_singleton]
    omega
  constructor
  · change (programmer.buffOffset + 1).toNat = _
    rw [place, UInt32.toNat_add, offset]
    exact Nat.mod_eq_of_lt (by simp only [UInt32.toNat_one]; omega)
  · rw [page]
    exact collected.nandAddress
  · rw [page, place]
    exact stored
  · rw [page]
    exact ⟨made, calls_eq, length, held.grow length.le⟩

theorem Collected.fill {filled : Programmer} (full : image.length % 2048 + 1 = 2048)
    (stored : filled.nandBuff.toList.take (image.length % 2048 + 1) =
      (image ++ [byte]).drop (2048 * (image.length / 2048)))
    (nandAddress : filled.nandAddress = programmer.nandAddress)
    (calls : filled.calls = programmer.calls) :
    Collected before base (image ++ [byte]) { filled.programTonand with buffOffset := 0 } := by
  obtain ⟨made, calls_eq, length, held⟩ := collected.calls
  obtain ⟨last, last_eq, page_eq⟩ := filled.programTonand_calls
  have page : (image ++ [byte]).length / 2048 = image.length / 2048 + 1 := by
    rw [List.length_append, List.length_singleton]
    omega
  have place : (image ++ [byte]).length % 2048 = 0 := by
    rw [List.length_append, List.length_singleton]
    omega
  constructor
  · rw [place]
    rfl
  · change filled.programTonand.nandAddress = _
    rw [page, programTonand_nandAddress, nandAddress, collected.nandAddress, UInt32.ofNat_add,
      UInt32.mul_add, ← UInt32.add_assoc]
    rfl
  · rw [place, page, List.take_zero, List.drop_of_length_le]
    omega
  · refine ⟨made ++ last, ?_, ?_, ?_⟩
    · change filled.programTonand.calls = _
      rw [last_eq, calls, calls_eq, List.append_assoc]
    · rw [page, programs_append, page_eq, List.length_append, length]
      rfl
    · rw [programs_append, page_eq]
      apply (held.grow length.le).concat
      · rw [length, nandAddress, collected.nandAddress]
      · rw [length, imagePage, ← stored]
        exact (List.take_prefix _ _).trans (List.take_prefix _ _)

theorem Collected.putByte (byte : UInt8) :
    ∃ next, programmer.putByte byte = .ok next ∧ Collected before base (image ++ [byte]) next := by
  have offset := collected.buffOffset
  have inside : programmer.buffOffset.toNat < PAGE_SIZE.toNat := by
    rw [offset]
    exact Nat.mod_lt _ (by decide)
  have stored : (programmer.nandBuff.set programmer.buffOffset.toNat byte inside).toList.take
      (image.length % 2048 + 1) = (image ++ [byte]).drop (2048 * (image.length / 2048)) := by
    rw [Vector.toList_set, offset, take_set_succ, collected.buffered,
      List.drop_append_of_le_length (Nat.mul_div_le _ _)]
    rw [Vector.length_toList, ← offset]
    exact inside
  have next_eq : (programmer.buffOffset + 1).toNat = image.length % 2048 + 1 := by
    rw [UInt32.toNat_add, offset]
    exact Nat.mod_eq_of_lt (by simp only [UInt32.toNat_one]; omega)
  have full_iff : programmer.buffOffset + 1 ≥ PAGE_SIZE ↔ image.length % 2048 + 1 = 2048 := by
    rw [ge_iff_le, UInt32.le_iff_toNat_le]
    change 2048 ≤ _ ↔ _
    omega
  rw [Programmer.putByte, dif_pos inside]
  by_cases full : image.length % 2048 + 1 = 2048
  · refine ⟨_, if_pos (full_iff.mpr full), ?_⟩
    exact collected.fill full stored rfl rfl
  · refine ⟨_, if_neg (fun fills => full (full_iff.mp fills)), ?_⟩
    exact collected.store (by omega) stored

theorem Collected.putBytes (bytes : List UInt8) :
    ∃ next, bytes.foldlM Programmer.putByte programmer = .ok next ∧
      Collected before base (image ++ bytes) next := by
  induction bytes generalizing image programmer with
  | nil =>
    refine ⟨programmer, rfl, ?_⟩
    rwa [List.append_nil]
  | cons byte bytes induction =>
    obtain ⟨middle, put, collected⟩ := collected.putByte byte
    obtain ⟨next, rest, collected⟩ := induction collected
    refine ⟨next, ?_, ?_⟩
    · rw [List.foldlM_cons, put]
      exact rest
    · rwa [List.append_assoc] at collected

/-! ## Whole downloads -/

theorem Collected.packets (packets : List (UInt8 × List UInt8)) (rest : List Callback) :
    ∃ next, Collected before base (image ++ downloadImage packets) next ∧
      (packets.map (fun packet => Callback.soh packet.1 packet.2) ++ rest).foldlM xmCallback
        programmer = rest.foldlM xmCallback next := by
  induction packets generalizing image programmer with
  | nil =>
    refine ⟨programmer, ?_, rfl⟩
    rwa [downloadImage, List.flatMap_nil, List.append_nil]
  | cons packet packets induction =>
    obtain ⟨middle, put, collected⟩ := collected.putBytes packet.2
    obtain ⟨next, collected, run⟩ := induction collected
    refine ⟨next, ?_, ?_⟩
    · rwa [List.append_assoc] at collected
    · rw [List.map_cons, List.cons_append, List.foldlM_cons, xmCallback]
      change (packet.2.foldlM Programmer.putByte programmer >>= _) = _
      rw [put]
      exact run

end

theorem collected_nil (programmer : Programmer) :
    Collected programmer.calls programmer.nandAddress [] { programmer with buffOffset := 0 } where
  buffOffset := rfl
  nandAddress := by
    change programmer.nandAddress = programmer.nandAddress + 2048 * 0
    simp
  buffered := rfl
  calls := ⟨[], (List.append_nil _).symm, rfl, fun index inside => absurd inside (by simp)⟩

theorem download_calls (programmer : Programmer) (base : UInt32)
    (packets : List (UInt8 × List UInt8)) :
    ∃ last made, programmer.download base packets = .ok last ∧
      last.calls = programmer.calls ++ .downloadInit base :: made ∧
      (programs made).length = (downloadImage packets).length / 2048 + 1 ∧
      HoldPages base (downloadImage packets) (programs made) := by
  obtain ⟨next, collected, run⟩ :=
    (programmer.downloadInit base).collected_nil.packets packets [.eot]
  obtain ⟨made, calls_eq, length, held⟩ := collected.programTonand
  refine ⟨next.programTonand, made, ?_, ?_, length, held⟩
  · exact run
  · exact calls_eq.trans (List.append_assoc ..)

def DownloadExact (programmer : Programmer) (base : UInt32)
    (packets : List (UInt8 × List UInt8)) : Prop :=
  ∃ last made, programmer.download base packets = .ok last ∧
    last.calls = programmer.calls ++ .downloadInit base :: made ∧
    ProgramsImage base (downloadImage packets) made

/-- The end of the file programs a page even when the buffer has just been emptied. -/
theorem download_exact_iff (programmer : Programmer) (base : UInt32)
    {packets : List (UInt8 × List UInt8)}
    (sized : ∀ packet ∈ packets, packet.2.length = XMODEM_DATA_SIZE) :
    programmer.DownloadExact base packets ↔ packets.length % 16 ≠ 0 := by
  have image_length := length_downloadImage sized
  obtain ⟨last, made, run, calls_eq, length, held⟩ := programmer.download_calls base packets
  constructor
  · intro ⟨other, others, otherRun, others_eq, count, _⟩
    cases run.symm.trans otherRun
    have same : made = others := by
      have equal := calls_eq.symm.trans others_eq
      rwa [List.append_cancel_left_eq, List.cons.injEq, and_iff_right rfl] at equal
    rw [← same] at count
    omega
  · intro unfilled
    exact ⟨last, made, run, calls_eq, by omega, held⟩

def powerOn : Programmer where
  nandBuff := Vector.replicate PAGE_SIZE.toNat 0
  buffOffset := 0
  nandAddress := 0
  calls := []

def zeroPacket : UInt8 × List UInt8 := (1, List.replicate XMODEM_DATA_SIZE 0)

theorem download_exact_iff_one :
    powerOn.DownloadExact 0 [zeroPacket] ↔ [zeroPacket].length % 16 ≠ 0 :=
  powerOn.download_exact_iff 0 fun packet member => by
    rw [List.mem_singleton.mp member]
    exact List.length_replicate

/-- Sixteen payloads fill one page, and two pages are programmed. -/
theorem full_page_programmed_twice :
    ∃ last made, powerOn.download 0 (List.replicate 16 zeroPacket) = .ok last ∧
      last.calls = .downloadInit 0 :: made ∧ (programs made).length = 2 := by
  obtain ⟨last, made, run, calls_eq, length, _⟩ :=
    powerOn.download_calls 0 (List.replicate 16 zeroPacket)
  refine ⟨last, made, run, calls_eq, ?_⟩
  rw [length, length_downloadImage]
  · rfl
  · intro packet member
    rw [List.eq_of_mem_replicate member]
    exact List.length_replicate

end Programmer

end UBootV210.Spl
