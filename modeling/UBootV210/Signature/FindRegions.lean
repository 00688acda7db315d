import UBootV210.Foundation.CheckedMemory

/-! # The regions of a device tree that are hashed

`fdt_find_regions` of `lib/libfdt/fdt_wip.c`, over `fdt_next_tag` of `fdt.c`. The
header of the tree has been checked before. An access outside `stack`, `path` or
`region` is a fault. -/

namespace UBootV210.Signature

open CheckedMemory

/-- A tree of version 17, the first one whose header has the size of the structure
block: the bytes of this block and those behind it, and the string block. -/
structure Fdt where
  byte : ℕ → UInt8
  sizeDtStruct : ℕ
  addressable : sizeDtStruct < 2 ^ 31
  offDtStruct : Int
  sizeDtStrings : Int
  string : ℕ → CString

inductive FdtTag
  | beginNode
  | endNode
  | prop
  | nop
  | stop
  deriving DecidableEq

def FDT_ERR_NOSPACE : Int := 3

def FDT_ERR_TRUNCATED : Int := 8

def FDT_ERR_BADSTRUCTURE : Int := 11

def FDT_ERR_BADLAYOUT : Int := 12

namespace Fdt

variable (fdt : Fdt)

def word (offset : ℕ) : ℕ :=
  ((fdt.byte offset).toNat * 256 + (fdt.byte (offset + 1)).toNat) * 65536 +
    ((fdt.byte (offset + 2)).toNat * 256 + (fdt.byte (offset + 3)).toNat)

def nameEnd (offset : ℕ) : Option ℕ :=
  (List.range' (offset + 4) (fdt.sizeDtStruct - (offset + 4))).find? fun index =>
    fdt.byte index = 0

def getName (offset : ℕ) : List UInt8 :=
  (List.range' (offset + 4) ((fdt.nameEnd offset).getD 0 - (offset + 4))).map fdt.byte

/-- The last test of `fdt_next_tag`, on 32-bit offsets. -/
def endTag (start : ℕ) (tag : FdtTag) (offset : ℕ) : FdtTag × Int :=
  if start ≤ offset ∧ offset ≤ fdt.sizeDtStruct then (tag, ((offset + 3) / 4 * 4 : ℕ))
  else (.stop, -FDT_ERR_BADSTRUCTURE)

/-- `fdt_next_tag`: the tag and the offset behind it, or an error. -/
def nextTag (start : ℕ) : FdtTag × Int :=
  if fdt.sizeDtStruct < start + 4 then (.stop, -FDT_ERR_TRUNCATED)
  else if fdt.word start = 1 then
    match fdt.nameEnd start with
    | none => (.stop, -FDT_ERR_BADSTRUCTURE)
    | some nul => fdt.endTag start .beginNode (nul + 1)
  else if fdt.word start = 3 then
    if fdt.sizeDtStruct < start + 8 then (.stop, -FDT_ERR_BADSTRUCTURE)
    else fdt.endTag start .prop ((start + 12 + fdt.word (start + 4)) % 2 ^ 32)
  else if fdt.word start = 9 then fdt.endTag start .stop (start + 4)
  else if fdt.word start = 2 then fdt.endTag start .endNode (start + 4)
  else if fdt.word start = 4 then fdt.endTag start .nop (start + 4)
  else (.stop, -FDT_ERR_BADSTRUCTURE)

end Fdt

structure RegionCall where
  fdt : Fdt
  inc : List CString
  excProp : List CString
  maxRegions : Int
  pathLen : Int
  addStringTab : Bool

/-- The regions that are found, as offset and size, and the start of the open one. -/
structure Regions where
  count : ℕ
  start : Int
  region : List (Int × Int)

/-- The other variables of the loop; `path` is the text before `end`. -/
structure RegionWalk where
  nextoffset : ℕ
  depth : Int
  want : ℕ
  path : List UInt8
  stack : List ℕ
  regions : Regions

def joinName (path name : List UInt8) : List UInt8 :=
  (if path.length ≠ 1 then path ++ [0x2f] else path) ++ name

def parentPath (path : List UInt8) : List UInt8 := (path.rdropWhile (· ≠ 0x2f)).dropLast

namespace RegionCall

variable (call : RegionCall)

def putPath (text : List UInt8) : Exec (List UInt8) :=
  if text.length < call.pathLen then .ok text else .error .outOfBounds

/-- The `switch` over the tag: a return value, or whether the tag is included and
where a region ends that does not include it. -/
def visitTag (tag : FdtTag) (next : Int) (walk : RegionWalk) :
    Exec (Int ⊕ Bool × Int × RegionWalk) :=
  match tag with
  | .prop =>
    let name := call.fdt.string (call.fdt.word (walk.nextoffset + 8))
    .ok (.inr (2 ≤ walk.want && name ∉ call.excProp, walk.nextoffset, walk))
  | .nop => .ok (.inr (2 ≤ walk.want, walk.nextoffset, walk))
  | .beginNode =>
    let name := call.fdt.getName walk.nextoffset
    if walk.depth + 1 = 32 then .ok (.inl (-FDT_ERR_BADSTRUCTURE))
    else if call.pathLen ≤ walk.path.length + 2 + name.length then .ok (.inl (-FDT_ERR_NOSPACE))
    else do
      let path ← call.putPath (joinName walk.path name)
      let stack ← store walk.stack (walk.depth + 1).toNat walk.want
      let want := if path ∈ call.inc.map CString.bytes then 2 else walk.want - 1
      let stopAt : Int := if walk.want = 1 ∨ want = 0 then walk.nextoffset else next
      .ok (.inr (want ≠ 0, stopAt, { walk with depth := walk.depth + 1, want, path, stack }))
  | .endNode => do
    let want ← if walk.depth < 0 then .error .outOfBounds else load walk.stack walk.depth.toNat
    let path ← call.putPath (parentPath walk.path)
    .ok (.inr (walk.want ≠ 0, next, { walk with depth := walk.depth - 1, want, path }))
  | .stop => .ok (.inr (true, next, walk))

def openRegion (offset : ℕ) (regions : Regions) : Exec Regions :=
  if regions.count ≠ 0 ∧ regions.count ≤ call.maxRegions then do
    let (last, size) ← load regions.region (regions.count - 1)
    if offset = last + size - call.fdt.offDtStruct then
      .ok { regions with start := last - call.fdt.offDtStruct, count := regions.count - 1 }
    else .ok { regions with start := offset }
  else .ok { regions with start := offset }

def putRegion (size : Int) (regions : Regions) : Exec Regions := do
  let region ← if regions.count < call.maxRegions then
      store regions.region regions.count (call.fdt.offDtStruct + regions.start, size)
    else .ok regions.region
  .ok ⟨regions.count + 1, -1, region⟩

def noteRegion (included : Bool) (offset : ℕ) (stopAt : Int) (regions : Regions) : Exec Regions :=
  if included ∧ regions.start = -1 then call.openRegion offset regions
  else if included = false ∧ regions.start ≠ -1 then
    call.putRegion (stopAt - regions.start) regions
  else .ok regions

def findRegionsLoop : ℕ → RegionWalk → Exec (Int × List (Int × Int))
  | 0, _ => .error .diverges
  | fuel + 1, walk => do
    let (tag, next) := call.fdt.nextTag walk.nextoffset
    match ← call.visitTag tag next walk with
    | .inl error => .ok (error, walk.regions.region)
    | .inr (included, stopAt, changed) =>
      let regions ← call.noteRegion included walk.nextoffset stopAt walk.regions
      if tag = .stop then
        if next ≠ call.fdt.sizeDtStruct then .ok (-FDT_ERR_BADLAYOUT, regions.region)
        else do
          let regions ← call.putRegion (next - regions.start +
            if call.addStringTab then call.fdt.sizeDtStrings else 0) regions
          .ok (regions.count, regions.region)
      else findRegionsLoop fuel { changed with nextoffset := next.toNat, regions }

/-- `fdt_find_regions`, with arrays of zeros for those that are not initialised. -/
def fdtFindRegions (fuel : ℕ) : Exec (Int × List (Int × Int)) := do
  let path ← call.putPath []
  call.findRegionsLoop fuel
    ⟨0, -1, 0, path, List.replicate 32 0, 0, -1, List.replicate call.maxRegions.toNat (0, 0)⟩

/-! ## Where the walk goes -/

/-- The offset, the number of open nodes and the path of the next turn, unless the
tag is the last one that is looked at. -/
def following : ℕ × ℕ × List UInt8 → Option (ℕ × ℕ × List UInt8)
  | (offset, opened, path) =>
    let (tag, next) := call.fdt.nextTag offset
    let name := call.fdt.getName offset
    match tag with
    | .prop | .nop => some (next.toNat, opened, path)
    | .beginNode =>
      if opened < 32 ∧ path.length + 2 + name.length < call.pathLen then
        some (next.toNat, opened + 1, joinName path name)
      else none
    | .endNode => if opened = 0 then none else some (next.toNat, opened - 1, parentPath path)
    | .stop => none

/-- A tag ends a node only if one is open, and is left behind. -/
def Sound : ℕ × ℕ × List UInt8 → Prop
  | (offset, opened, _) =>
    ((call.fdt.nextTag offset).1 = .endNode → opened ≠ 0) ∧ (call.fdt.nextTag offset).2 ≠ offset

end RegionCall

theorem Fdt.nextTag_spec (fdt : Fdt) (start : ℕ) :
    ((fdt.nextTag start).1 ≠ .stop → start + 4 ≤ fdt.sizeDtStruct ∧ start ≤ (fdt.nextTag start).2) ∧
      ((fdt.nextTag start).1 ≠ .prop → (fdt.nextTag start).2 ≠ start) := by
  rw [nextTag]
  split
  case isTrue => simp [FDT_ERR_TRUNCATED]
  case isFalse inside =>
    have ended (tag : FdtTag) (offset : ℕ) (behind : tag = .prop ∨ start < offset) :
        ((fdt.endTag start tag offset).1 ≠ .stop →
          start + 4 ≤ fdt.sizeDtStruct ∧ start ≤ (fdt.endTag start tag offset).2) ∧
        ((fdt.endTag start tag offset).1 ≠ .prop → (fdt.endTag start tag offset).2 ≠ start) := by
      rw [endTag]
      split
      · refine ⟨fun _ => ⟨by omega, by dsimp only; omega⟩, fun other => ?_⟩
        have later := behind.resolve_left other
        dsimp only
        omega
      · simp [FDT_ERR_BADSTRUCTURE]
    split
    · cases found : fdt.nameEnd start with
      | none => simp [FDT_ERR_BADSTRUCTURE]
      | some nul =>
        have member := List.mem_of_find?_eq_some found
        rw [List.mem_range'_1] at member
        exact ended _ _ (.inr (by omega))
    split
    · split
      · simp [FDT_ERR_BADSTRUCTURE]
      · exact ended _ _ (.inl rfl)
    repeat' split
    · exact ended _ _ (.inr (by omega))
    · exact ended _ _ (.inr (by omega))
    · exact ended _ _ (.inr (by omega))
    · simp [FDT_ERR_BADSTRUCTURE]

theorem RegionCall.following_eq_some {call : RegionCall} {next : ℕ × ℕ × List UInt8}
    (follows : call.following (offset, opened, path) = some next) :
    (call.fdt.nextTag offset).1 ≠ .stop ∧ next.1 = (call.fdt.nextTag offset).2.toNat ∧
      ((call.fdt.nextTag offset).1 = .endNode → opened ≠ 0) ∧
      ((call.fdt.nextTag offset).1 = .prop → next.2 = (opened, path)) := by
  rw [following] at follows
  generalize call.fdt.nextTag offset = tagged at follows ⊢
  rcases tagged with ⟨_ | _ | _ | _ | _, behind⟩ <;> grind

variable {call : RegionCall} {walk : RegionWalk}

def RegionWalk.position (walk : RegionWalk) : ℕ × ℕ × List UInt8 :=
  (walk.nextoffset, (walk.depth + 1).toNat, walk.path)

structure RegionWalk.Fits (call : RegionCall) (walk : RegionWalk) : Prop where
  lower : -1 ≤ walk.depth
  upper : walk.depth < 32
  stack : walk.stack.length = 32
  path : walk.path.length < call.pathLen
  region : walk.regions.region.length = call.maxRegions.toNat

theorem RegionCall.putRegion_returns (sized : regions.region.length = call.maxRegions.toNat)
    (size : Int) :
    ∃ next, call.putRegion size regions = .ok next ∧
      next.region.length = call.maxRegions.toNat := by
  rw [putRegion]
  split
  case isTrue inside =>
    rw [store, if_pos (by omega)]
    exact ⟨_, rfl, by rwa [List.length_set]⟩
  case isFalse => exact ⟨_, rfl, sized⟩

theorem RegionCall.noteRegion_returns (sized : regions.region.length = call.maxRegions.toNat)
    (included : Bool) (offset : ℕ) (stopAt : Int) :
    ∃ next, call.noteRegion included offset stopAt regions = .ok next ∧
      next.region.length = call.maxRegions.toNat := by
  rw [noteRegion]
  split
  · rw [openRegion]
    split
    case isTrue merges =>
      have inside : regions.count - 1 < regions.region.length := by omega
      rw [load_eq_ok_iff.mpr (List.getElem?_eq_getElem inside), Exec.ok_bind]
      dsimp only
      split <;> exact ⟨_, rfl, sized⟩
    case isFalse => exact ⟨_, rfl, sized⟩
  · split
    · exact putRegion_returns sized _
    · exact ⟨_, rfl, sized⟩

namespace RegionCall

theorem findRegionsLoop_goesOn (fits : walk.Fits call)
    (tagged : call.fdt.nextTag walk.nextoffset = (tag, next)) (more : tag ≠ .stop)
    (visited : call.visitTag tag next walk = .ok (.inr (included, stopAt, changed)))
    (kept : changed.Fits call) :
    ∃ after : RegionWalk, after.Fits call ∧
      some (next.toNat, changed.position.2) = some after.position ∧
      ∀ fuel, call.findRegionsLoop (fuel + 1) walk = call.findRegionsLoop fuel after := by
  obtain ⟨regions, noted, sized⟩ :=
    noteRegion_returns fits.region included walk.nextoffset stopAt
  refine ⟨{ changed with nextoffset := next.toNat, regions },
    ⟨kept.lower, kept.upper, kept.stack, kept.path, sized⟩, rfl, fun fuel => ?_⟩
  simp only [findRegionsLoop, tagged, visited, Exec.ok_bind, noted, if_neg more]

theorem findRegionsLoop_turn (fits : walk.Fits call) :
    (∃ after : RegionWalk, after.Fits call ∧ call.following walk.position = some after.position ∧
      ∀ fuel, call.findRegionsLoop (fuel + 1) walk = call.findRegionsLoop fuel after) ∨
    call.following walk.position = none ∧ (call.Sound walk.position ∧
        (∃ result, ∀ fuel, call.findRegionsLoop (fuel + 1) walk = .ok result) ∨
      ¬ call.Sound walk.position ∧
        ∀ fuel, call.findRegionsLoop (fuel + 1) walk = .error .outOfBounds) := by
  obtain ⟨lower, upper, stack, path, region⟩ := id fits
  rcases tagged : call.fdt.nextTag walk.nextoffset with ⟨tag, next⟩
  have spec := (call.fdt.nextTag_spec walk.nextoffset).2
  simp only [following, Sound, RegionWalk.position, tagged] at spec ⊢
  cases tag with
  | prop => exact .inl (findRegionsLoop_goesOn fits tagged (by decide) rfl fits)
  | nop => exact .inl (findRegionsLoop_goesOn fits tagged (by decide) rfl fits)
  | beginNode =>
    dsimp only
    have left := spec (by simp)
    by_cases deep : walk.depth + 1 = 32
    · refine .inr ⟨if_neg (by omega), .inl ⟨⟨by simp, left⟩,
        (-FDT_ERR_BADSTRUCTURE, walk.regions.region), fun fuel => ?_⟩⟩
      simp only [findRegionsLoop, tagged, visitTag, if_pos deep, Exec.ok_bind]
    by_cases long : call.pathLen ≤ walk.path.length + 2 + (call.fdt.getName walk.nextoffset).length
    · refine .inr ⟨if_neg (by omega), .inl ⟨⟨by simp, left⟩,
        (-FDT_ERR_NOSPACE, walk.regions.region), fun fuel => ?_⟩⟩
      simp only [findRegionsLoop, tagged, visitTag, if_neg deep, if_pos long, Exec.ok_bind]
    have fitsPath :
        (joinName walk.path (call.fdt.getName walk.nextoffset)).length < call.pathLen := by
      rw [joinName]
      split <;> simp only [List.length_append, List.length_singleton] <;> omega
    obtain ⟨included, stopAt, changed, visited, kept, position⟩ : ∃ included stopAt changed,
        call.visitTag .beginNode next walk = .ok (.inr (included, stopAt, changed)) ∧
        changed.Fits call ∧ changed.position.2 = ((walk.depth + 1).toNat + 1,
          joinName walk.path (call.fdt.getName walk.nextoffset)) := by
      simp only [visitTag, if_neg deep, if_neg long, putPath, if_pos fitsPath, Exec.ok_bind, store]
      rw [if_pos (by omega), Exec.ok_bind]
      refine ⟨_, _, _, rfl, ⟨by dsimp only; omega, by dsimp only; omega, by simpa using stack,
        fitsPath, region⟩, Prod.ext ?_ rfl⟩
      simp only [RegionWalk.position]
      omega
    rw [if_pos (by omega), ← position]
    exact .inl (findRegionsLoop_goesOn fits tagged (by decide) visited kept)
  | endNode =>
    dsimp only
    by_cases outer : walk.depth < 0
    · refine .inr ⟨if_pos (by omega), .inr ⟨fun sound => sound.1 rfl (by omega), fun fuel => ?_⟩⟩
      simp only [findRegionsLoop, tagged, visitTag, if_pos outer, Exec.error_bind]
    have fitsPath : (parentPath walk.path).length < call.pathLen := by
      have shorter := (List.rdropWhile_prefix (· ≠ 0x2f) walk.path).length_le
      rw [parentPath, List.length_dropLast]
      omega
    obtain ⟨included, stopAt, changed, visited, kept, position⟩ : ∃ included stopAt changed,
        call.visitTag .endNode next walk = .ok (.inr (included, stopAt, changed)) ∧
        changed.Fits call ∧ changed.position.2 =
          ((walk.depth + 1).toNat - 1, parentPath walk.path) := by
      have inside : walk.depth.toNat < walk.stack.length := by omega
      simp only [visitTag, if_neg outer, load_eq_ok_iff.mpr (List.getElem?_eq_getElem inside),
        putPath, if_pos fitsPath, Exec.ok_bind]
      refine ⟨_, _, _, rfl, ⟨by dsimp only; omega, by dsimp only; omega, stack, fitsPath, region⟩,
        Prod.ext ?_ rfl⟩
      simp only [RegionWalk.position]
      omega
    rw [if_neg (by omega), ← position]
    exact .inl (findRegionsLoop_goesOn fits tagged (by decide) visited kept)
  | stop =>
    obtain ⟨regions, noted, sized⟩ := noteRegion_returns region true walk.nextoffset next
    refine .inr ⟨rfl, .inl ⟨⟨by simp, spec (by simp)⟩, ?_⟩⟩
    simp only [findRegionsLoop, tagged, visitTag, Exec.ok_bind, noted, if_true]
    split
    · exact ⟨_, fun _ => rfl⟩
    · obtain ⟨last, put, _⟩ := putRegion_returns sized (next - regions.start +
        if call.addStringTab then call.fdt.sizeDtStrings else 0)
      simp only [put, Exec.ok_bind]
      exact ⟨_, fun _ => rfl⟩

theorem sound_of_returns {fuel : ℕ} (fits : walk.Fits call)
    (returns : call.findRegionsLoop fuel walk = .ok result)
    (reached : Relation.ReflTransGen (fun position next => call.following position = some next)
      walk.position position) : call.Sound position := by
  induction fuel generalizing walk with
  | zero => cases returns
  | succ fuel induction =>
    rcases findRegionsLoop_turn fits with ⟨after, kept, follows, loops⟩ | ⟨ends, last⟩
    · rw [loops] at returns
      rcases Relation.ReflTransGen.cases_head reached with rfl | ⟨next, step, rest⟩
      · obtain ⟨_, offset, opened, same⟩ := following_eq_some follows
        refine ⟨opened, fun stays => ?_⟩
        have tagged : (call.fdt.nextTag walk.nextoffset).1 = .prop :=
          not_not.mp fun other => (call.fdt.nextTag_spec walk.nextoffset).2 other stays
        have again : after.position = walk.position := by
          refine Prod.ext ?_ (same tagged)
          rw [offset, stays]
          rfl
        exact (induction kept returns (by rw [again]) : call.Sound walk.position).2 stays
      · cases follows.symm.trans step
        exact induction kept returns rest
    · rcases Relation.ReflTransGen.cases_head reached with rfl | ⟨next, step, _⟩
      · rcases last with ⟨sound, _⟩ | ⟨_, fails⟩
        · exact sound
        · cases (fails fuel).symm.trans returns
      · cases ends.symm.trans step

theorem returns_of_sound (fits : walk.Fits call) (sound : ∀ position, Relation.ReflTransGen
      (fun position next => call.following position = some next) walk.position position →
      call.Sound position) :
    ∃ fuel result, call.findRegionsLoop fuel walk = .ok result := by
  induction left : call.fdt.sizeDtStruct - walk.nextoffset using Nat.strong_induction_on
    generalizing walk with
  | _ size induction =>
    rcases findRegionsLoop_turn fits with ⟨after, kept, follows, loops⟩ | ⟨_, last⟩
    · obtain ⟨more, offset, _⟩ := following_eq_some follows
      have behind := (call.fdt.nextTag_spec walk.nextoffset).1 more
      have moves := (sound _ .refl).2
      have later : call.fdt.sizeDtStruct - after.nextoffset < size := by
        change after.nextoffset = _ at offset
        omega
      obtain ⟨fuel, result, returns⟩ := induction _ later kept
        (fun position rest => sound position (.head follows rest)) rfl
      exact ⟨fuel + 1, result, (loops fuel).trans returns⟩
    · rcases last with ⟨_, result, returns⟩ | ⟨unsound, _⟩
      · exact ⟨1, result, returns 0⟩
      · exact absurd (sound _ .refl) unsound

/-- Every access is inside and the loop ends exactly when `path` has room for a
NUL, no tag that is reached ends a node without one that is open, and none is
followed by itself. -/
theorem fdtFindRegions_safe_iff (call : RegionCall) :
    (∃ fuel result, call.fdtFindRegions fuel = .ok result) ↔ 0 < call.pathLen ∧ ∀ position,
      Relation.ReflTransGen (fun position next => call.following position = some next) (0, 0, [])
        position → call.Sound position := by
  have fits (room : 0 < call.pathLen) : RegionWalk.Fits call ⟨0, -1, 0, [], List.replicate 32 0,
      0, -1, List.replicate call.maxRegions.toNat (0, 0)⟩ :=
    ⟨le_rfl, by norm_num, List.length_replicate, room, List.length_replicate⟩
  by_cases room : 0 < call.pathLen
  · simp only [fdtFindRegions, putPath, List.length_nil, Nat.cast_zero, if_pos room, Exec.ok_bind,
      and_iff_right room]
    constructor
    · rintro ⟨fuel, result, returns⟩ position reached
      exact sound_of_returns (fits room) returns reached
    · exact fun sound => returns_of_sound (fits room) sound
  · simp [fdtFindRegions, putPath, room]

end RegionCall

/-- A structure block that is only an `FDT_END_NODE`. -/
def endNodeBlock : Fdt where
  byte := fun offset => if offset = 3 then 2 else if offset = 7 then 9 else 0
  sizeDtStruct := 8
  addressable := by decide
  offDtStruct := 0x38
  sizeDtStrings := 0
  string := fun _ => .ofBytes []

/-- It is read with `stack[-1]`. -/
theorem endNodeBlock_underflows : (∀ fuel, RegionCall.fdtFindRegions
      ⟨endNodeBlock, [.ofBytes [0x2f]], [], 26, 200, false⟩ (fuel + 1) = .error .outOfBounds) ∧
    ¬ ∃ fuel result, RegionCall.fdtFindRegions
      ⟨endNodeBlock, [.ofBytes [0x2f]], [], 26, 200, false⟩ fuel = .ok result := by
  refine ⟨fun fuel => rfl, ?_⟩
  rintro ⟨_ | fuel, result, returned⟩ <;> cases returned

end UBootV210.Signature
