import UBootV210.Foundation.Run
import UBootV210.MtdParts.Table

/-! # The tables that the commands make

The partitions of a device are accepted ones in the order of their offsets, at most one of
them starts at 0, and no device is there twice. -/

namespace UBootV210.MtdParts

open KeyOrder

/-! ## One device -/

structure MtdDevice.Sorted (dev : MtdDevice) : Prop where
  ordered : Ordered partKey dev.parts
  once : (dev.parts.filter (partKey · = 0)).length ≤ 1
  counted : dev.numParts.toNat = dev.parts.length % 65536

variable {part : PartInfo}

theorem partKey_eq_zero_iff : partKey part = 0 ↔ part.offset = 0 :=
  UInt64.toNat_inj (b := 0)

variable {parts : List PartInfo}

theorem sortAdd_fresh (ordered : Ordered partKey parts)
    (added : sortAdd new parts = some sorted) (start : partKey new = 0) :
    parts.filter (partKey · = 0) = [] := by
  apply List.filter_eq_nil_iff.mpr
  intro part member
  cases parts with
  | nil => cases member
  | cons pi parts =>
    rw [sortAdd] at added
    split at added
    · cases added
    case isFalse notBoth =>
      have first : partKey pi ≠ 0 := by
        grind [partKey_eq_zero_iff]
      have later : partKey pi ≤ partKey part := by
        rcases List.mem_cons.mp member with same | behind
        · rw [same]
        · exact (List.pairwise_cons.mp ordered).1 part behind
      simp only [decide_eq_true_eq]
      omega

theorem sortAdd_of_fresh (fresh : partKey new = 0 → parts.filter (partKey · = 0) = []) :
    sortAdd new parts = some (insertBefore partKey new parts) := by
  have accepted : sortAdd new parts ≠ none := by
    induction parts with
    | nil => simp [sortAdd]
    | cons pi parts induction =>
      rw [sortAdd, if_neg]
      · split
        · simp
        · simp_all
      · grind [List.filter_eq_nil_iff, partKey_eq_zero_iff, List.mem_cons_self]
  obtain ⟨sorted, added⟩ := Option.ne_none_iff_exists'.mp accepted
  rw [added, sortAdd_eq_some added]

theorem toNat_numParts_add_one {numParts : UInt16} (counted : numParts.toNat = count % 65536) :
    (numParts + 1).toNat = (count + 1) % 65536 := by
  simp_all

variable {added : MtdDevice}

theorem partSortAdd_sorted (sorted : dev.Sorted) (done : partSortAdd dev part = some added) :
    added.Sorted ∧ added.id = dev.id ∧ added.parts = insertBefore partKey part dev.parts := by
  obtain ⟨parts, inserted, rfl⟩ := Option.map_eq_some_iff.mp done
  have place := sortAdd_eq_some inserted
  refine ⟨⟨?_, ?_, ?_⟩, rfl, place⟩
  · dsimp only
    rw [place]
    exact sorted.ordered.insertBefore
  · dsimp only
    rw [place, filter_insertBefore]
    split
    case isTrue start =>
      rw [sortAdd_fresh sorted.ordered inserted start]
      exact le_refl 1
    case isFalse => exact sorted.once
  · dsimp only
    rw [place, length_insertBefore]
    exact toNat_numParts_add_one sorted.counted

theorem addParts_sorted (sorted : dev.Sorted)
    (done : addParts dev parts = some added) : added.Sorted := by
  induction parts generalizing dev with
  | nil =>
    cases done
    exact sorted
  | cons part parts induction =>
    rw [addParts, Option.bind_eq_bind, Option.bind_eq_some_iff] at done
    obtain ⟨next, first, rest⟩ := done
    exact induction (partSortAdd_sorted sorted first).1 rest

theorem sorted_empty (id : MtdId) : (⟨id, 0, []⟩ : MtdDevice).Sorted :=
  ⟨.nil, Nat.zero_le _, rfl⟩

structure MtdDevice.Reached (chips : Chips) (mtdids : List MtdId) (dev : MtdDevice) : Prop
    extends dev.Sorted where
  known : idFindByMtdId mtdids dev.id.mtdId.bytes = some dev.id
  plain : 58 ∉ dev.id.mtdId.bytes
  nonempty : dev.parts ≠ []
  accepted : ∀ part ∈ dev.parts, part.Parsed chips dev.id

variable {place partPlace : Nat} {result : List MtdDevice} {ret : Int} {id : CString}

section

variable {chips : Chips} {mtdids : List MtdId} {devices : List MtdDevice} {dev : MtdDevice}

theorem deviceParse_reached
    (parsed : deviceParse chips mtdids devices mtdDev = .ok (some (dev, rest))) :
    dev.Reached chips mtdids := by
  obtain ⟨id, offset, parts, p, behind, found, _, read, counted, done⟩ :=
    deviceParse_eq_some parsed
  obtain ⟨sameId, perm⟩ := addParts_perm done
  have name : id.mtdId.bytes = mtdDev.takeWhile (· ≠ 58) := by
    have holds := List.find?_some found
    exact of_decide_eq_true holds
  refine ⟨addParts_sorted (sorted_empty id) done, ?_, ?_, ?_, deviceParse_parsed parsed⟩
  · simp_all
  · rw [sameId]
    rw [name]
    intro member
    simpa using List.mem_takeWhile_imp member
  · intro none
    have length := perm.length_eq
    rw [none, List.nil_append, List.length_nil] at length
    omega

theorem partAdd_reached {id : MtdId} (reached : dev.Reached chips mtdids)
    (valid : part.Parsed chips id) (done : partAdd chips dev part = some added) :
    added.Reached chips mtdids ∧ added.id = dev.id := by
  rw [partAdd, Option.bind_eq_bind, Option.bind_eq_some_iff] at done
  obtain ⟨filled, validated, inserted⟩ := done
  obtain ⟨sorted, sameId, place⟩ := partSortAdd_sorted reached.toSorted inserted
  have same := (partValidate_eq_some_iff.mp validated).1
  obtain ⟨name, auto, flags⟩ := fillSize_fields dev.id part
  have newValid : filled.Parsed chips dev.id := by
    refine ⟨⟨part, validated⟩, ?_, ?_⟩
    · rw [same, name, auto]
      exact valid.named
    · rw [same, flags]
      exact valid.flags
  refine ⟨⟨sorted, ?_, ?_, ?_, ?_⟩, sameId⟩
  · rw [sameId]
    exact reached.known
  · rw [sameId]
    exact reached.plain
  · rw [place, insertBefore]
    simp
  · intro other member
    rw [sameId]
    obtain ⟨sorted', found, equal⟩ := Option.map_eq_some_iff.mp inserted
    rw [← equal] at member
    rcases List.mem_cons.mp ((sortAdd_perm found).mem_iff.mp member) with new | old
    · rw [new]
      exact newValid
    · exact reached.accepted other old

theorem eraseIdx_reached (reached : dev.Reached chips mtdids) (there : place < dev.parts.length)
    (more : dev.numParts ≠ 1) :
    ({ dev with parts := dev.parts.eraseIdx place, numParts := dev.numParts - 1 } :
      MtdDevice).Reached chips mtdids := by
  have sublist := List.eraseIdx_sublist dev.parts place
  have length : (dev.parts.eraseIdx place).length = dev.parts.length - 1 :=
    List.length_eraseIdx_of_lt there
  have counted := reached.counted
  have several : dev.parts.length % 65536 ≠ 1 := by
    intro one
    exact more (UInt16.toNat_inj.mp (counted.trans one))
  refine ⟨⟨?_, ?_, ?_⟩, reached.known, reached.plain, ?_, ?_⟩
  · exact reached.ordered.sublist sublist
  · exact (sublist.filter _).length_le.trans reached.once
  · dsimp only
    have difference : (dev.numParts - 1).toNat = (65536 - 1 + dev.numParts.toNat) % 65536 :=
      UInt16.toNat_sub dev.numParts 1
    rw [length]
    omega
  · grind
  · intro part member
    exact reached.accepted part (sublist.subset member)

def Distinct (devices : List MtdDevice) : Prop :=
  devices.Pairwise fun left right =>
    ¬ (left.id.type = right.id.type ∧ left.id.num = right.id.num)

structure Reached (chips : Chips) (mtdids : List MtdId) (devices : List MtdDevice) : Prop where
  each : ∀ dev ∈ devices, dev.Reached chips mtdids
  distinct : Distinct devices

theorem reached_nil : Reached chips mtdids [] where
  each := fun _ member => absurd member List.not_mem_nil
  distinct := .nil

theorem deviceFind_eq_none_iff : deviceFind devices type num = none ↔
      ∀ dev ∈ devices, ¬ (dev.id.type = type ∧ dev.id.num = num) := by
  simp [deviceFind, List.find?_eq_none]

section

variable (reached : Reached chips mtdids devices)
include reached

theorem Reached.append (new : dev.Reached chips mtdids)
    (absent : deviceFind devices dev.id.type dev.id.num = none) :
    Reached chips mtdids (devices ++ [dev]) where
  each := by
    grind [each]
  distinct := by
    refine List.pairwise_append.mpr ⟨reached.distinct, List.pairwise_singleton _ _, ?_⟩
    intro left member right last
    rw [List.mem_singleton.mp last]
    exact deviceFind_eq_none_iff.mp absent left member

theorem Reached.set (found : devices[place]? = some dev) (sameId : next.id = dev.id)
    (new : next.Reached chips mtdids) : Reached chips mtdids (devices.set place next) where
  each := by
    grind [List.mem_or_eq_of_mem_set, each]
  distinct := by
    have ids : (devices.set place next).map MtdDevice.id = devices.map MtdDevice.id := by
      grind [List.getElem?_eq_some_iff, List.map_set, List.set_getElem_self]
    have distinct : (devices.map MtdDevice.id).Pairwise fun left right =>
        ¬ (left.type = right.type ∧ left.num = right.num) :=
      List.pairwise_map.mpr reached.distinct
    rw [← ids] at distinct
    exact List.pairwise_map.mp distinct

theorem Reached.eraseIdx (place : Nat) : Reached chips mtdids (devices.eraseIdx place) where
  each := fun other member => reached.each other (List.eraseIdx_subset member)
  distinct := reached.distinct.sublist (List.eraseIdx_sublist devices place)

theorem readDevices_reached (read : readDevices chips mtdids fuel devices p = .ok (some result)) :
    Reached chips mtdids result := by
  induction fuel generalizing devices p with
  | zero => cases read
  | succ fuel induction =>
    cases p with
    | nil =>
      cases read
      exact reached
    | cons first rest =>
      rw [readDevices, Exec.bind_eq_ok_iff] at read
      · obtain ⟨parsed, returned, read⟩ := read
        cases parsed with
        | none => cases read
        | some parsed =>
          dsimp only at read
          split at read
          · cases read
          case isFalse absent =>
            rw [Bool.not_eq_true, Option.isSome_eq_false_iff, Option.isNone_iff_eq_none] at absent
            exact induction (reached.append (deviceParse_reached returned) absent) read
      · simp

end

theorem parseMtdparts_reached (parsed : parseMtdparts chips mtdids mtdparts = .ok (ret, result)) :
    Reached chips mtdids result := by
  rw [parseMtdparts] at parsed
  split at parsed
  · cases parsed
    exact reached_nil
  split at parsed
  · cases parsed
    exact reached_nil
  rw [Exec.bind_eq_ok_iff] at parsed
  obtain ⟨read, returned, parsed⟩ := parsed
  cases read with
  | none =>
    cases parsed
    exact reached_nil
  | some read =>
    cases parsed
    exact readDevices_reached reached_nil returned

/-! ## The commands -/

theorem addDevice_reached (reached : Reached chips mtdids devices) (new : dev.Reached chips mtdids)
    (added : addDevice chips devices dev = .ok (some result)) : Reached chips mtdids result := by
  rw [addDevice] at added
  split at added
  case h_1 absent =>
    cases added
    exact reached.append new absent
  case h_2 existing found =>
    split at added
    · cases added
    case h_2 part parts first =>
      split at added
      · cases added
      case h_2 next done =>
        cases added
        have member : part ∈ dev.parts := by
          simp_all
        have old := reached.each existing (List.mem_of_find?_eq_some found)
        obtain ⟨nextReached, sameId⟩ := partAdd_reached old (new.accepted part member) done
        refine reached.set ?_ sameId nextReached
        rw [← found, deviceFind, List.find?_eq_getElem?_findIdx]
        rfl

theorem findByNumber_places {id : List UInt8}
    (found : findByNumber devices id = some (place, partPlace)) :
    ∃ dev, devices[place]? = some dev ∧ partPlace < dev.parts.length := by
  rw [findByNumber] at found
  split at found
  case h_2 => cases found
  case h_1 =>
    dsimp only at found
    split at found
    · cases found
    split at found
    · cases found
    split at found
    case isFalse => cases found
    case isTrue there =>
      cases found
      obtain ⟨part, some⟩ := Option.isSome_iff_exists.mp there
      obtain ⟨dev, here, info⟩ := Option.bind_eq_some_iff.mp some
      refine ⟨dev, here, ?_⟩
      rw [mtdPartInfo] at info
      split at info
      · cases info
      · exact (List.getElem?_eq_some_iff.mp info).1

theorem findDevAndPart_places (found : findDevAndPart devices id = some (place, partPlace)) :
    ∃ dev, devices[place]? = some dev ∧ partPlace < dev.parts.length := by
  rw [findDevAndPart] at found
  split at found
  case h_2 => exact findByNumber_places found
  case h_1 index named =>
    cases found
    obtain ⟨there, holds, _⟩ := List.findIdx?_eq_some_iff_getElem.mp named
    refine ⟨devices[place], List.getElem?_eq_getElem there, ?_⟩
    rw [List.getElem?_eq_getElem there, Option.map_some]
    exact List.findIdx_lt_length.mpr (List.any_eq_true.mp holds)

theorem partDel_reached (reached : Reached chips mtdids devices)
    (found : findDevAndPart devices id = some (place, partPlace)) :
    Reached chips mtdids (partDel devices place partPlace) := by
  obtain ⟨dev, here, there⟩ := findDevAndPart_places found
  rw [partDel, here]
  dsimp only
  split
  case isTrue => exact reached.eraseIdx place
  case isFalse more =>
    grind [Reached.each, List.mem_of_getElem?, Reached.set, eraseIdx_reached]

end

section

variable {board : Board} {table next : Table}

theorem generateSave_eq {result : Table} (saved : generateSave table = .ok result) :
    result.devices = table.devices ∧ result.mtdids = table.mtdids := by
  rw [generateSave, Exec.bind_eq_ok_iff] at saved
  obtain ⟨_, _, equal⟩ := saved
  cases equal
  exact ⟨rfl, rfl⟩

theorem addPartition_reached (reached : Reached board.chips table.mtdids table.devices)
    (done : addPartition board arguments table = .ok next) :
    Reached board.chips next.mtdids next.devices := by
  rw [addPartition, Exec.bind_eq_ok_iff] at done
  obtain ⟨text, _, done⟩ := done
  cases text with
  | none =>
    cases done
    exact reached
  | some tmpbuf =>
    rw [Exec.bind_eq_ok_iff] at done
    obtain ⟨parsed, returned, done⟩ := done
    cases parsed with
    | none =>
      cases done
      exact reached
    | some parsed =>
      rw [Exec.bind_eq_ok_iff] at done
      obtain ⟨added, placed, done⟩ := done
      cases added with
      | none =>
        cases done
        exact reached
      | some devices =>
        obtain ⟨sameDevices, sameIds⟩ := generateSave_eq done
        rw [sameDevices, sameIds]
        exact addDevice_reached reached (deviceParse_reached returned) placed

theorem deletePartition_reached (reached : Reached board.chips table.mtdids table.devices)
    (done : deletePartition id table = .ok next) :
    Reached board.chips next.mtdids next.devices := by
  rw [deletePartition] at done
  split at done
  · cases done
    exact reached
  case h_2 place partPlace found =>
    obtain ⟨sameDevices, sameIds⟩ := generateSave_eq done
    rw [sameDevices, sameIds]
    exact partDel_reached reached found

/-- Devices that were made with the ids before the change are gone at the end. -/
theorem updateParts_reached {parts : Option CString}
    (reached : idsChanged = false → Reached board.chips table.mtdids table.devices)
    (done : updateParts board parts idsChanged table = .ok (ret, next)) :
    Reached board.chips next.mtdids next.devices := by
  rw [updateParts.eq_def] at done
  split at done
  case h_1 parts =>
    split at done
    · rw [Exec.bind_eq_ok_iff] at done
      obtain ⟨⟨code, devices⟩, parsed, done⟩ := done
      have new := parseMtdparts_reached parsed
      dsimp only at done
      split at done
      · cases done
        exact new
      · cases done
        exact new
    case isFalse same =>
      simp_all
  case h_2 =>
    split at done
    · cases done
      exact reached_nil
    split at done
    · cases done
    case isFalse kept =>
      cases done
      rw [not_and_or, not_not] at kept
      rcases kept with same | none
      · exact reached (Bool.eq_false_iff.mpr same)
      · rw [none]
        exact reached_nil

theorem mtdpartsInit_reached {ids parts : Option CString}
    (reached : Reached board.chips table.mtdids table.devices)
    (done : mtdpartsInit board ids parts table = .ok (ret, next)) :
    Reached board.chips next.mtdids next.devices := by
  rw [mtdpartsInit] at done
  split at done
  · cases done
    exact reached
  split at done
  · cases done
    exact reached
  split at done
  · cases done
    exact reached
  rw [Exec.bind_eq_ok_iff] at done
  obtain ⟨⟨valid, idsChanged, middle⟩, updated, done⟩ := done
  rw [updateIds] at updated
  split at updated
  case isTrue =>
    cases updated
    exact updateParts_reached (fun _ => reached) done
  case isFalse =>
    rw [Exec.bind_eq_ok_iff] at updated
    obtain ⟨⟨good, mtdids⟩, _, updated⟩ := updated
    dsimp only at updated
    split at updated
    · cases updated
      exact updateParts_reached (fun same => absurd same (by decide)) done
    · cases updated
      cases done
      exact reached_nil

theorem run_reached {command : Command} (reached : Reached board.chips table.mtdids table.devices)
    (done : command.run board table = .ok next) :
    Reached board.chips next.mtdids next.devices := by
  rw [Command.run, Exec.bind_eq_ok_iff] at done
  obtain ⟨⟨ret, middle⟩, started, done⟩ := done
  have initially := mtdpartsInit_reached reached started
  dsimp only at done
  split at done
  case h_1 =>
    cases done
    exact reached_nil
  case h_2 =>
    cases done
    exact initially
  case h_3 =>
    split at done
    · cases done
      exact initially
    · exact addPartition_reached initially done
  case h_4 =>
    split at done
    · cases done
      exact initially
    · exact deletePartition_reached initially done

end

def Step (board : Board) (table : Table) (command : Command) (next : Table) : Prop :=
  command.run board table = .ok next

theorem reached_of_run {board : Board} {commands : List Command}
    (run : Run (Step board) Table.initial commands table) :
    Reached board.chips table.mtdids table.devices := by
  exact @Run.invariant _ _ _ (fun table => Reached board.chips table.mtdids table.devices)
    (fun step reached => run_reached reached step) _ _ _ run reached_nil

end UBootV210.MtdParts
