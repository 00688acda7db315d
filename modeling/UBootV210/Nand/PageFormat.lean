import UBootV210.Foundation.BitMask
import UBootV210.Nand.PageWrite

/-! # The format of a programmed page

What the page writers of the SPL and of the driver send to the chip: the main
area, then a spare area with the codes of the four sectors from byte 12 on. -/

namespace UBootV210.Nand

open CheckedMemory

def sector (page : Vector UInt8 2048) (step : Fin 4) : Vector UInt8 512 :=
  (page.extract (512 * step) (512 * step + 512)).cast (by omega)

def pageSectors (page : Vector UInt8 2048) : List (Vector UInt8 512) :=
  [sector page 0, sector page 1, sector page 2, sector page 3]

def sectorCodes (unit : EccUnit) (sectors : List (Vector UInt8 512)) : List UInt8 :=
  sectors.flatMap fun sector => (unit.code sector).toList

def spareArea (unit : EccUnit) (page : Vector UInt8 2048) : List UInt8 :=
  List.replicate 12 0xff ++ sectorCodes unit (pageSectors page)

def pageFormat (unit : EccUnit) (page : Vector UInt8 2048) : List UInt8 :=
  page.toList ++ spareArea unit page

theorem flatMap_pageSectors (page : Vector UInt8 2048) :
    (pageSectors page).flatMap Vector.toList = page.toList := by
  have cut (start : Nat) : (page.toList.drop start).take 512 ++ page.toList.drop (start + 512) =
        page.toList.drop start := by
    rw [← List.drop_drop, List.take_append_drop]
  have last : page.toList.drop 2048 = [] := by simp
  calc (pageSectors page).flatMap Vector.toList
    _ = (page.toList.drop 0).take 512 ++ ((page.toList.drop 512).take 512 ++
          ((page.toList.drop 1024).take 512 ++ ((page.toList.drop 1536).take 512 ++
            page.toList.drop 2048))) := by
        rw [last]
        simp only [pageSectors, sector, List.flatMap_cons, List.flatMap_nil, Vector.toList_cast,
          Vector.toList_extract]
        rfl
    _ = page.toList := by
        rw [cut 1536, cut 1024, cut 512, cut 0, List.drop_zero]

theorem length_sectorCodes : (sectorCodes unit sectors).length = 13 * sectors.length := by
  induction sectors with
  | nil => rfl
  | cons sector sectors induction =>
    rw [sectorCodes, List.flatMap_cons, List.length_append, Vector.length_toList]
    change 13 + (sectorCodes unit sectors).length = _
    rw [List.length_cons]
    omega

theorem length_spareArea : (spareArea unit page).length = 64 := by
  rw [spareArea, List.length_append, length_sectorCodes]
  rfl

theorem sectorCodes_cons (sector : Vector UInt8 512) : sectorCodes unit (sector :: sectors) =
      (unit.code sector).toList ++ sectorCodes unit sectors := rfl

theorem sectorCodes_at (unit : EccUnit) (sectors : List (Vector UInt8 512)) (step : Nat)
    (inside : step < sectors.length) :
    ((sectorCodes unit sectors).drop (13 * step)).take 13 = (unit.code sectors[step]).toList := by
  induction sectors generalizing step with
  | nil => simp at inside
  | cons sector sectors induction =>
    have sized : (unit.code sector).toList.length = 13 := Vector.length_toList
    rw [sectorCodes_cons]
    cases step with
    | zero => exact List.take_left' sized
    | succ step =>
      rw [Nat.mul_succ, Nat.add_comm, ← List.drop_drop, List.drop_left' sized]
      exact induction step (Nat.lt_of_succ_lt_succ inside)

/-- The code of a sector lies in the spare area at byte 12 + 13 `step`. -/
theorem code_at_offset (unit : EccUnit) (page : Vector UInt8 2048) (step : Fin 4) :
    ((pageFormat unit page).drop (2048 + (12 + 13 * step.val))).take 13 =
      (unit.code (sector page step)).toList := by
  rw [← List.drop_drop, ← List.drop_drop, pageFormat, List.drop_left' Vector.length_toList,
    spareArea, List.drop_left' List.length_replicate,
    sectorCodes_at unit (pageSectors page) step step.isLt]
  match step with
  | 0 => rfl
  | 1 => rfl
  | 2 => rfl
  | 3 => rfl

/-- The chip has latched some more bytes of a page, and nothing else has happened
to it. -/
structure Latches (bytes : List UInt8) (before after : Controller) : Prop where
  pageRegister : after.pageRegister = before.pageRegister ++ bytes
  address : after.address = before.address
  programmed : after.programmed = before.programmed

theorem Latches.trans
    (earlier : Latches first before middle) (later : Latches second middle after) :
    Latches (first ++ second) before after where
  pageRegister := by rw [later.pageRegister, earlier.pageRegister, List.append_assoc]
  address := later.address.trans earlier.address
  programmed := later.programmed.trans earlier.programmed

variable {controller : Controller}

namespace Controller

def feed (bytes : List UInt8) (controller : Controller) : Controller :=
  bytes.foldl (fun controller byte => controller.writeNfdata byte) controller

theorem writeNfdata_latches (byte : UInt8) (controller : Controller) :
    Latches [byte] controller (controller.writeNfdata byte) := by
  rw [writeNfdata]
  split
  · exact ⟨rfl, rfl, rfl⟩
  · exact ⟨rfl, rfl, rfl⟩

theorem feed_latches (bytes : List UInt8) (controller : Controller) :
    Latches bytes controller (controller.feed bytes) := by
  induction bytes generalizing controller with
  | nil => exact ⟨(List.append_nil _).symm, rfl, rfl⟩
  | cons byte bytes induction =>
    exact (writeNfdata_latches byte controller).trans (induction _)

structure Encoding (controller : Controller) : Prop where
  unlocked : controller.nfcont &&& bit 7 = 0
  configured : controller.nfeccconf = 0x1ff0003
  direction : controller.nfecccont &&& bit 16 ≠ 0

theorem Encoding.writeNfdata (encoding : Encoding controller) (byte : UInt8) :
    Encoding (controller.writeNfdata byte) ∧
      (controller.writeNfdata byte).message = controller.message ++ [byte] := by
  rw [Controller.writeNfdata, if_pos encoding.unlocked]
  exact ⟨⟨encoding.unlocked, encoding.configured, encoding.direction⟩, rfl⟩

theorem Encoding.feed (encoding : Encoding controller) (bytes : List UInt8) :
    Encoding (controller.feed bytes) ∧
      (controller.feed bytes).message = controller.message ++ bytes := by
  induction bytes generalizing controller with
  | nil => exact ⟨encoding, (List.append_nil _).symm⟩
  | cons byte bytes induction =>
    have first := encoding.writeNfdata byte
    have later := induction first.1
    refine ⟨later.1, ?_⟩
    have message := later.2
    rw [first.2, List.append_assoc] at message
    exact message

theorem Encoding.done {controller : Controller} (encoding : Encoding controller)
    (empty : controller.message = []) (sector : Vector UInt8 512) :
    (controller.feed sector.toList).nfeccstat &&& bit 25 ≠ 0 := by
  have nonempty : sector.toList ≠ [] := by
    intro equal
    have length : sector.toList.length = 512 := Vector.length_toList
    rw [equal] at length
    cases length
  have split : controller.feed sector.toList =
      (controller.feed sector.toList.dropLast).writeNfdata (sector.toList.getLast nonempty) := by
    conv_lhs => rw [← List.dropLast_append_getLast nonempty]
    exact List.foldl_append ..
  have before := encoding.feed sector.toList.dropLast
  have full : (controller.feed sector.toList.dropLast).message.length + 1 =
      (controller.feed sector.toList.dropLast).messageSize := by
    rw [before.2, empty, messageSize, before.1.configured]
    simp
  rw [split, Controller.writeNfdata, if_pos before.1.unlocked]
  simp only [full, if_true]
  rw [BitMask.or_and_self]
  decide

theorem word_bytes : (word byte0 byte1 byte2 byte3 &&& 0xff).toUInt8 = byte0 ∧
      ((word byte0 byte1 byte2 byte3 >>> 8) &&& 0xff).toUInt8 = byte1 ∧
      ((word byte0 byte1 byte2 byte3 >>> 16) &&& 0xff).toUInt8 = byte2 ∧
      ((word byte0 byte1 byte2 byte3 >>> 24) &&& 0xff).toUInt8 = byte3 := by
  have bound0 := byte0.toNat_lt
  have bound1 := byte1.toNat_lt
  have bound2 := byte2.toNat_lt
  have bound3 := byte3.toNat_lt
  have value : (word byte0 byte1 byte2 byte3).toNat =
      byte0.toNat + 256 * byte1.toNat + 65536 * byte2.toNat + 16777216 * byte3.toNat := by
    rw [word, UInt32.toNat_ofNat_of_lt']
    simp only [UInt32.size]
    omega
  have unshifted : word byte0 byte1 byte2 byte3 = word byte0 byte1 byte2 byte3 >>> 0 := by simp
  have byteAt (shift : UInt32) (byte : UInt8) (small : shift.toNat < 32) (same :
      (word byte0 byte1 byte2 byte3).toNat / 2 ^ shift.toNat % 256 = byte.toNat) :
      ((word byte0 byte1 byte2 byte3 >>> shift) &&& 0xff).toUInt8 = byte :=
    UInt8.toNat_inj.mp ((BitMask.toNat_byte small).trans same)
  refine ⟨unshifted ▸ byteAt 0 _ (by decide) ?_, byteAt 8 _ (by decide) ?_,
    byteAt 16 _ (by decide) ?_, byteAt 24 _ (by decide) ?_⟩ <;>
  · rw [value]
    simp only [UInt32.toNat_ofNat, Nat.reduceMod, Nat.reducePow]
    omega

theorem Encoding.sector (encoding : Encoding controller) (empty : controller.message = [])
    (latches : Latches [] before controller) (unit : EccUnit) (sector : Vector UInt8 512)
    (locked : Controller) (isLocked : locked = { controller.feed sector.toList with
      nfcont := (controller.feed sector.toList).nfcont ||| bit 7 }) :
    eccCode (locked.nfeccprgecc0 unit) (locked.nfeccprgecc1 unit)
        (locked.nfeccprgecc2 unit) (locked.nfeccprgecc3 unit) = (unit.code sector).toList ∧
      Latches sector.toList before locked := by
  subst isLocked
  have fed := encoding.feed sector.toList
  rw [empty, List.nil_append] at fed
  constructor
  · have parity : Controller.parity unit { controller.feed sector.toList with
        nfcont := (controller.feed sector.toList).nfcont ||| bit 7 } =
        (unit.code sector, unit.upper sector) := by
      have full : (controller.feed sector.toList).message.length = 512 := by
        rw [fed.2, Vector.length_toList]
      rw [Controller.parity, dif_pos full, if_pos ⟨fed.1.configured, fed.1.direction⟩]
      have equal : (⟨(controller.feed sector.toList).message.toArray, by simpa using full⟩ :
          Vector UInt8 512) = sector := by
        apply Vector.toList_inj.mp
        simpa [Vector.toList] using fed.2
      simp only [equal]
    have toList : (unit.code sector).toList =
        List.ofFn fun index : Fin 13 => (unit.code sector)[index] := by
      apply List.ext_getElem
      · rw [Vector.length_toList, List.length_ofFn]
      · intro index inside _
        simp only [Vector.getElem_toList, List.getElem_ofFn, Fin.getElem_fin]
    rw [toList]
    simp only [eccCode, nfeccprgecc0, nfeccprgecc1, nfeccprgecc2, nfeccprgecc3, parity, word_bytes]
    rfl
  · have sent := latches.trans (feed_latches sector.toList controller)
    exact ⟨sent.pageRegister, sent.address, sent.programmed⟩

end Controller

variable {State : Type}

theorem writeBytes_cut (write : UInt8 → State → State) (before bytes rest : List UInt8)
    (state : State) :
    writeBytes write (before ++ (bytes ++ rest)) bytes.length before.length state =
      .ok (bytes.foldl (fun state byte => write byte state) state) := by
  induction bytes generalizing before state with
  | nil => rfl
  | cons byte bytes induction =>
    have moved := induction (before ++ [byte]) (write byte state)
    simp only [List.append_assoc, List.singleton_append, List.length_append,
      List.length_singleton] at moved
    rw [List.length_cons, writeBytes, List.cons_append, load_cut]
    exact moved

theorem writeBytes_all (write : UInt8 → State → State) (bytes : List UInt8) (state : State) :
    writeBytes write bytes bytes.length 0 state =
      .ok (bytes.foldl (fun state byte => write byte state) state) := by
  have cut := writeBytes_cut write [] bytes [] state
  rw [List.append_nil] at cut
  exact cut

def SendsSector {State : Type} (bus : State → Controller) (Ready : State → Prop)
    (unit : EccUnit) (page : List UInt8) (offset : Nat) (hwctl : State → State)
    (writeBuf : Nat → State → Exec State)
    (calculate : Nat → List UInt8 → State → Exec (List UInt8 × State)) : Prop :=
  ∀ (sector : Vector UInt8 512) (passed later before old rest : List UInt8) (index : Nat)
    (state : State), passed ++ (sector.toList ++ later) = page →
    before.length = offset + index → old.length = 13 → Ready state →
    ∃ sent after, writeBuf passed.length (hwctl state) = .ok sent ∧
      calculate index (before ++ (old ++ rest)) sent =
        .ok (before ++ ((unit.code sector).toList ++ rest), after) ∧
      Latches sector.toList (bus state) (bus after) ∧ Ready after

theorem SendsSector.loop (turn : SendsSector bus Ready unit page offset hwctl writeBuf calculate)
    (sectors : List (Vector UInt8 512)) (passed later before old rest : List UInt8) (index : Nat)
    (state : State) (cut : passed ++ (sectors.flatMap Vector.toList ++ later) = page)
    (place : before.length = offset + index) (room : old.length = 13 * sectors.length)
    (ready : Ready state) :
    ∃ after, eccLoop hwctl writeBuf calculate 512 13 sectors.length index passed.length
          (before ++ (old ++ rest)) state =
        .ok (before ++ (sectorCodes unit sectors ++ rest), after) ∧
      Latches (sectors.flatMap Vector.toList) (bus state) (bus after) ∧ Ready after := by
  induction sectors generalizing passed before old index state with
  | nil =>
    have none : old = [] := List.eq_nil_of_length_eq_zero room
    rw [none]
    exact ⟨state, rfl, ⟨(List.append_nil _).symm, rfl, rfl⟩, ready⟩
  | cons sector sectors induction =>
    have oldCut : old = old.take 13 ++ old.drop 13 := (List.take_append_drop 13 old).symm
    rw [List.length_cons] at room
    rw [List.flatMap_cons, List.append_assoc] at cut
    obtain ⟨sent, stored, sends, calculates, latches, readyAgain⟩ :=
      turn sector passed _ before (old.take 13) (old.drop 13 ++ rest) index state cut place
        (by rw [List.length_take]; omega) ready
    obtain ⟨after, loops, latchesLater, readyAfter⟩ :=
      induction (passed ++ sector.toList) (before ++ (unit.code sector).toList) (old.drop 13)
        (index + 13) stored
        (by rw [List.append_assoc]; exact cut)
        (by rw [List.length_append, Vector.length_toList]; omega)
        (by rw [List.length_drop]; omega) readyAgain
    rw [List.length_append, Vector.length_toList] at loops
    refine ⟨after, ?_, latches.trans latchesLater, readyAfter⟩
    rw [List.length_cons, eccLoop, sends, Exec.ok_bind, oldCut, List.append_assoc, calculates,
      Exec.ok_bind, sectorCodes_cons]
    simp only [List.append_assoc] at loops ⊢
    exact loops

theorem SendsSector.page {bus : State → Controller} {Ready : State → Prop} {unit : EccUnit}
    {page : Vector UInt8 2048}
    (turn : SendsSector bus Ready unit page.toList offset hwctl writeBuf calculate)
    (before old rest : List UInt8) (state : State) (place : before.length = offset)
    (room : old.length = 52) (ready : Ready state) :
    ∃ after, eccLoop hwctl writeBuf calculate 512 13 4 0 0 (before ++ (old ++ rest)) state =
        .ok (before ++ (sectorCodes unit (pageSectors page) ++ rest), after) ∧
      Latches page.toList (bus state) (bus after) ∧ Ready after := by
  have cut : [] ++ ((pageSectors page).flatMap Vector.toList ++ []) = page.toList := by
    rw [List.append_nil, flatMap_pageSectors]
    rfl
  have loops := turn.loop (pageSectors page) [] [] before old rest 0 state cut place room ready
  rw [flatMap_pageSectors] at loops
  exact loops

theorem placeCodes_consecutive (positions : List Nat) (passed codes rest before old : List UInt8)
    (aligned : positions.length = passed.length) (room : old.length = codes.length) :
    placeCodes (positions ++ List.range' before.length codes.length) (passed ++ (codes ++ rest))
        codes.length positions.length (before ++ old) =
      .ok (before ++ codes) := by
  induction codes generalizing positions passed before old with
  | nil =>
    have none : old = [] := List.eq_nil_of_length_eq_zero room
    rw [none]
    rfl
  | cons code codes induction =>
    cases old with
    | nil => simp at room
    | cons byte old =>
      have moved := induction (positions ++ [before.length]) (passed ++ [code])
        (before ++ [code]) old (by simp [aligned]) (by simpa using room)
      simp only [List.append_assoc, List.singleton_append, List.length_append,
        List.length_singleton] at moved
      rw [List.length_cons, List.range'_succ, placeCodes, load_cut]
      change (do
        let loaded ← load (passed ++ (code :: codes ++ rest)) positions.length
        let oob ← store (before ++ byte :: old) before.length loaded
        placeCodes _ (passed ++ (code :: codes ++ rest)) codes.length (positions.length + 1) oob)
          = _
      rw [aligned, List.cons_append, load_cut]
      change (do
        let oob ← store (before ++ byte :: old) before.length code
        placeCodes _ (passed ++ code :: (codes ++ rest)) codes.length (passed.length + 1) oob) = _
      rw [store_cut, ← aligned]
      exact moved

theorem placeCodes_layout (codes rest before old : List UInt8)
    (layout : eccpos = List.range' before.length count) (counted : codes.length = count)
    (room : old.length = count) :
    placeCodes eccpos (codes ++ rest) count 0 (before ++ old) = .ok (before ++ codes) := by
  have places := placeCodes_consecutive [] [] codes rest before old rfl (room.trans counted.symm)
  rw [counted, List.nil_append, ← layout] at places
  exact places

/-! ## The two page writers -/

namespace Spl

theorem nandInitHwecc8bit_encoding (controller : Controller) :
    (nandInitHwecc8bit .write controller).Encoding ∧
      (nandInitHwecc8bit .write controller).message = [] ∧
      Latches [] controller (nandInitHwecc8bit .write controller) := by
  refine ⟨⟨BitMask.and_not_and_self, by rfl, ?_⟩, ?_, ⟨(List.append_nil _).symm, rfl, rfl⟩⟩
  · change (controller.nfecccont ||| bit 16 ||| bit 2) &&& bit 16 ≠ 0
    rw [BitMask.or_and_of_disjoint (by decide), BitMask.or_and_self]
    decide
  · apply if_pos
    change (controller.nfecccont ||| bit 16 ||| bit 2) &&& bit 2 ≠ 0
    rw [BitMask.or_and_self]
    decide

theorem sendsSector (unit : EccUnit) (page : List UInt8) :
    SendsSector id (fun _ => True) unit page oobEccOffset (nandInitHwecc8bit .write)
      (fun buffer => nandWriteBuf page buffer eccSize)
      (fun index => nandCalculateEcc8bit unit .write (oobEccOffset + index)) := by
  intro sector passed later before old rest index controller cut place room _
  obtain ⟨encoding, empty, latches⟩ := nandInitHwecc8bit_encoding controller
  obtain ⟨code, latched⟩ := encoding.sector empty latches unit sector _ rfl
  have sized : sector.toList.length = eccSize := Vector.length_toList
  refine ⟨(nandInitHwecc8bit .write controller).feed sector.toList, _, ?_, ?_, latched, trivial⟩
  · have sent := writeBytes_cut Controller.writeNfdata passed sector.toList later
      (nandInitHwecc8bit .write controller)
    rw [cut, sized] at sent
    exact sent
  · have stored := storeAll_cut before old rest (unit.code sector).toList
      (by rw [room, Vector.length_toList])
    simp only [nandCalculateEcc8bit, if_neg (encoding.done empty sector), code, ← place, stored]
    rfl

theorem nandWritePage8bit_programs (unit : EccUnit) (page : Vector UInt8 2048) (addr : UInt32)
    (aligned : addr &&& (pageSize - 1) = 0) (controller : Controller) :
    ∃ after address, nandWritePage8bit unit page.toList addr controller = .ok after ∧
      after.programmed = some (address, pageFormat unit page) := by
  let addressed := nandAddr addr ((nandSelectChip controller).writeNfcmmd 0x80)
  obtain ⟨sent, loops, latches, -⟩ := (sendsSector unit page.toList).page (List.replicate 12 0xff)
    (List.replicate 52 0xff) [] addressed rfl rfl trivial
  simp only [List.append_nil] at loops
  have latchesSpare := latches.trans (Controller.feed_latches (spareArea unit page) sent)
  refine ⟨nandDeselectChip ((sent.feed (spareArea unit page)).writeNfcmmd 0x10),
    (sent.feed (spareArea unit page)).address, ?_, ?_⟩
  · have spare := writeBytes_all Controller.writeNfdata (spareArea unit page) sent
    rw [length_spareArea] at spare
    have steps : pageSize.toNat / eccSize = 4 := rfl
    have erased : List.replicate oobSize (0xff : UInt8) =
        List.replicate 12 0xff ++ List.replicate 52 0xff := rfl
    simp only [nandWritePage8bit, if_neg (not_not.mpr aligned), steps, erased]
    rw [show eccBytes = 13 from rfl, show eccSize = 512 from rfl, show oobSize = 64 from rfl]
    rw [show eccSize = 512 from rfl] at loops
    simp only [addressed] at loops
    rw [loops, Exec.ok_bind]
    rw [← spareArea, nandWriteBuf, spare, Exec.ok_bind, Controller.feed]
  · have register := latchesSpare.pageRegister
    rw [id, show addressed.pageRegister = [] from rfl, List.nil_append, ← pageFormat] at register
    rw [← register]
    rfl

end Spl

theorem s5pv210NandEnableHwecc_encoding (state : DriverState) :
    (s5pv210NandEnableHwecc .write state).controller.Encoding ∧
      (s5pv210NandEnableHwecc .write state).controller.message = [] ∧
      Latches [] state.controller (s5pv210NandEnableHwecc .write state).controller := by
  refine ⟨⟨BitMask.and_not_and_self, by rfl, ?_⟩, ?_, ⟨(List.append_nil _).symm, rfl, rfl⟩⟩
  · change (state.controller.nfecccont ||| bit 16 ||| bit 2) &&& bit 16 ≠ 0
    rw [BitMask.or_and_of_disjoint (by decide), BitMask.or_and_self]
    decide
  · apply if_pos
    change (state.controller.nfecccont ||| bit 16 ||| bit 2) &&& bit 2 ≠ 0
    rw [BitMask.or_and_self]
    decide

theorem foldl_writeb (bytes : List UInt8) (controller : Controller) :
    bytes.foldl (fun state byte => writeb byte state) ⟨controller, .nfdata⟩ =
      ⟨controller.feed bytes, .nfdata⟩ := by
  induction bytes generalizing controller with
  | nil => rfl
  | cons byte bytes induction => exact induction (controller.writeNfdata byte)

theorem driver_sendsSector (unit : EccUnit) (page : List UInt8) :
    SendsSector DriverState.controller (fun state => state.ioAddrW = .nfdata) unit page 0
      (s5pv210NandEnableHwecc .write) (fun buffer => nandWriteBuf page buffer 512)
      (s5pv210NandCalculateEcc unit) := by
  intro sector passed later before old rest index state cut place room port
  obtain ⟨encoding, empty, latches⟩ := s5pv210NandEnableHwecc_encoding state
  obtain ⟨code, latched⟩ := encoding.sector empty latches unit sector _ rfl
  have sized : sector.toList.length = 512 := Vector.length_toList
  have enabled : s5pv210NandEnableHwecc .write state =
      ⟨(s5pv210NandEnableHwecc .write state).controller, .nfdata⟩ := by
    rw [← port]
    rfl
  refine ⟨⟨(s5pv210NandEnableHwecc .write state).controller.feed sector.toList, .nfdata⟩,
    ⟨_, .nfdata⟩, ?_, ?_, latched, rfl⟩
  · have sent := writeBytes_cut writeb passed sector.toList later
      (s5pv210NandEnableHwecc .write state)
    rw [cut, sized, enabled, foldl_writeb] at sent
    rw [enabled]
    exact sent
  · have stored := storeAll_cut before old rest (unit.code sector).toList
      (by rw [room, Vector.length_toList])
    rw [Nat.zero_add] at place
    simp only [s5pv210NandCalculateEcc, code, ← place, stored]
    rfl

theorem nandOob64_consecutive : nandOob64 = List.range' 12 52 := rfl

theorem nandWritePageHwecc_latches (unit : EccUnit) (chipsize : UInt64)
    (page : Vector UInt8 2048) (eccCalc : List UInt8) (room : 52 ≤ eccCalc.length)
    (controller : Controller) :
    ∃ after,
      nandWritePageHwecc unit (s5pv210Chip chipsize) page.toList eccCalc (List.replicate 64 0xff)
          ⟨controller, .nfdata⟩ = .ok ⟨after, .nfdata⟩ ∧
      Latches (pageFormat unit page) controller after := by
  obtain ⟨sent, loops, latches, port⟩ := (driver_sendsSector unit page.toList).page []
    (eccCalc.take 52) (eccCalc.drop 52) ⟨controller, .nfdata⟩ rfl
    (by rw [List.length_take]; omega) rfl
  rw [List.take_append_drop, List.nil_append, List.nil_append] at loops
  have places := placeCodes_layout (sectorCodes unit (pageSectors page)) (eccCalc.drop 52)
    (List.replicate 12 0xff) (List.replicate 52 0xff) nandOob64_consecutive
    length_sectorCodes List.length_replicate
  have spare := writeBytes_all writeb (spareArea unit page) sent
  rw [length_spareArea] at spare
  have erased : List.replicate 64 (0xff : UInt8) =
      List.replicate 12 0xff ++ List.replicate 52 0xff := rfl
  have state : sent = ⟨sent.controller, .nfdata⟩ := by
    rw [← port]
  refine ⟨sent.controller.feed (spareArea unit page), ?_,
    latches.trans (Controller.feed_latches _ _)⟩
  simp only [nandWritePageHwecc, s5pv210Chip, Nat.reduceDiv, Nat.reduceMul]
  rw [loops, Exec.ok_bind, erased, places, Exec.ok_bind, ← spareArea, nandWriteBuf, spare]
  rw [state, foldl_writeb]

theorem addressCycle (cmd : Int) (given : 0 ≤ cmd) (change : Bool) (state : DriverState)
    (selected : change = true ∨ state.ioAddrW = .nfaddr) :
    (s5pv210Hwcontrol cmd ⟨change, true, false, true⟩ state).ioAddrW = .nfaddr ∧
      (s5pv210Hwcontrol cmd ⟨change, true, false, true⟩ state).controller.pageRegister =
        state.controller.pageRegister := by
  have command : cmd ≠ nandCmdNone := by
    intro none
    rw [none] at given
    exact absurd given (by decide)
  cases change with
  | true =>
    simp only [s5pv210Hwcontrol, if_pos command]
    exact ⟨rfl, rfl⟩
  | false =>
    have port : state.ioAddrW = .nfaddr := by simpa using selected
    simp only [s5pv210Hwcontrol, if_pos command, cond_false, writeb, port, true_and]
    rfl

theorem nandCommandLp_seqin (chip : NandChip) (page : Int) (valid : 0 ≤ page)
    (state : DriverState) :
    ∃ controller, nandCommandLp chip .seqin 0 page state = ⟨controller, .nfdata⟩ ∧
      controller.pageRegister = [] := by
  have given : page ≠ -1 := by omega
  have shifted (count : Nat) : 0 ≤ page >>> count := by
    rw [Int.shiftRight_eq_div_pow]
    exact Int.ediv_nonneg valid (Int.natCast_nonneg _)
  let started := s5pv210Hwcontrol NandCommand.seqin.code ⟨true, true, true, false⟩ state
  have cleared : started.controller.pageRegister = [] := rfl
  let column := s5pv210Hwcontrol 0 ⟨true, true, false, true⟩ started
  have first := addressCycle 0 (by decide) true started (.inl rfl)
  let columns := s5pv210Hwcontrol (0 >>> (8 : Nat)) ⟨false, true, false, true⟩ column
  have second := addressCycle (0 >>> (8 : Nat)) (by decide) false column (.inr first.1)
  let row := s5pv210Hwcontrol page ⟨false, true, false, true⟩ columns
  have third := addressCycle page valid false columns (.inr second.1)
  let rows := s5pv210Hwcontrol (page >>> (8 : Nat)) ⟨false, true, false, true⟩ row
  have fourth := addressCycle (page >>> (8 : Nat)) (shifted 8) false row (.inr third.1)
  have fifth := addressCycle (page >>> (16 : Nat)) (shifted 16) false rows (.inr fourth.1)
  have latched : rows.controller.pageRegister = [] :=
    fourth.2.trans (third.2.trans (second.2.trans (first.2.trans cleared)))
  by_cases large : 0x8000000 < chip.chipsize
  · refine ⟨_, by simp only [nandCommandLp, if_pos large, if_pos given]; rfl, ?_⟩
    exact fifth.2.trans latched
  · refine ⟨_, by simp only [nandCommandLp, if_neg large, if_pos given]; rfl, ?_⟩
    exact latched

theorem nandCommandLp_pageprog (chip : NandChip) (controller : Controller) :
    (nandCommandLp chip .pageprog (-1) (-1) ⟨controller, .nfdata⟩).controller.programmed =
      some (controller.address, controller.pageRegister) := rfl

theorem nandWritePage_programs (unit : EccUnit) (chipsize : UInt64) (page : Vector UInt8 2048)
    (eccCalc : List UInt8) (room : 52 ≤ eccCalc.length) (waitfunc : DriverState → UInt8)
    (number : Int) (valid : 0 ≤ number) (state : DriverState) :
    ∃ status after address, nandWritePage unit (s5pv210Chip chipsize) waitfunc page.toList eccCalc
          (List.replicate 64 0xff) number state = .ok (status, after) ∧
        after.controller.programmed = some (address, pageFormat unit page) := by
  obtain ⟨addressed, seqin, emptied⟩ :=
    nandCommandLp_seqin (s5pv210Chip chipsize) number valid state
  obtain ⟨sent, writes, latches⟩ :=
    nandWritePageHwecc_latches unit chipsize page eccCalc room addressed
  have programs := nandCommandLp_pageprog (s5pv210Chip chipsize) sent
  rw [latches.pageRegister, emptied, List.nil_append] at programs
  simp only [nandWritePage, seqin, writes, Exec.ok_bind]
  split
  · exact ⟨_, _, _, rfl, programs⟩
  · exact ⟨_, _, _, rfl, programs⟩

theorem length_pageFormat (unit : EccUnit) (page : Vector UInt8 2048) :
    (pageFormat unit page).length = 2112 := by
  rw [pageFormat, List.length_append, length_spareArea, Vector.length_toList]

/-- For every code and every page, from every state of the controller, the SPL and
the driver program the same 2112 bytes, and the codes lie where the readers look. -/
theorem page_format_agrees (unit : EccUnit) (page : Vector UInt8 2048) (addr : UInt32)
    (aligned : addr &&& (Spl.pageSize - 1) = 0) (number : Int) (valid : 0 ≤ number)
    (chipsize : UInt64) (eccCalc : List UInt8) (room : 52 ≤ eccCalc.length)
    (waitfunc : DriverState → UInt8) (controller : Controller) (state : DriverState) :
    ∃ bytes splAfter splAddress status driverAfter driverAddress,
      Spl.nandWritePage8bit unit page.toList addr controller = .ok splAfter ∧
      splAfter.programmed = some (splAddress, bytes) ∧
      nandWritePage unit (s5pv210Chip chipsize) waitfunc page.toList eccCalc
          (List.replicate 64 0xff) number state = .ok (status, driverAfter) ∧
      driverAfter.controller.programmed = some (driverAddress, bytes) ∧
      bytes.length = 2112 ∧ bytes.take 2048 = page.toList ∧
      ∀ step : Fin 4,
        (bytes.drop (2048 + (Spl.oobEccOffset + Spl.eccBytes * step.val))).take Spl.eccBytes =
          (unit.code (sector page step)).toList := by
  obtain ⟨splAfter, splAddress, splReturns, splPrograms⟩ :=
    Spl.nandWritePage8bit_programs unit page addr aligned controller
  obtain ⟨status, driverAfter, driverAddress, driverReturns, driverPrograms⟩ :=
    nandWritePage_programs unit chipsize page eccCalc room waitfunc number valid state
  exact ⟨pageFormat unit page, splAfter, splAddress, status, driverAfter, driverAddress,
    splReturns, splPrograms, driverReturns, driverPrograms, length_pageFormat unit page,
    List.take_left' Vector.length_toList, code_at_offset unit page⟩

/-- The second page, with a code that repeats the first byte of the sector. -/
theorem page_format_agrees_second_page :
    ∃ bytes splAfter splAddress status driverAfter driverAddress,
      Spl.nandWritePage8bit ⟨fun sector => Vector.replicate 13 sector[0], fun _ => (1, 2, 3)⟩
          (Vector.replicate 2048 7).toList 0x800
          ⟨0, 0, 0, 0, 0, 0, [], [], [], none⟩ = .ok splAfter ∧
      splAfter.programmed = some (splAddress, bytes) ∧
      nandWritePage ⟨fun sector => Vector.replicate 13 sector[0], fun _ => (1, 2, 3)⟩
          (s5pv210Chip 0x10000000) (fun _ => 0) (Vector.replicate 2048 7).toList
          (List.replicate 640 0) (List.replicate 64 0xff) 1
          ⟨⟨0, 0, 0, 0, 0, 0, [], [], [], none⟩, .nfdata⟩ = .ok (status, driverAfter) ∧
      driverAfter.controller.programmed = some (driverAddress, bytes) ∧
      bytes.length = 2112 ∧ bytes.take 2048 = (Vector.replicate 2048 7).toList ∧
      ∀ step : Fin 4,
        (bytes.drop (2048 + (Spl.oobEccOffset + Spl.eccBytes * step.val))).take Spl.eccBytes =
          (Vector.replicate 13 (sector (Vector.replicate 2048 7) step)[0]).toList :=
  page_format_agrees ⟨fun sector => Vector.replicate 13 sector[0], fun _ => (1, 2, 3)⟩
    (Vector.replicate 2048 7) 0x800 (by decide) 1 (by decide) 0x10000000 (List.replicate 640 0)
    (by rw [List.length_replicate]; decide) (fun _ => 0) _ _

end UBootV210.Nand
