import UBootV210.Library.LmbReserve

/-! # Sequences of calls into `lmb.c`

The addresses that `lmb_is_reserved` reports after a sequence of calls, compared
with a plain set of addresses that is kept beside it. -/

namespace UBootV210.Library

open CheckedMemory Intervals

theorem lmbHolds_isSome_iff {region : LmbProperty} (nonzero : region.base + region.size ≠ 0)
    (addr : UInt32) :
    (lmbHolds addr region).isSome ↔ region.base ≤ addr ∧ addr < region.base + region.size := by
  have positive : 0 < (region.base + region.size).toNat :=
    Nat.pos_of_ne_zero fun zero => nonzero (UInt32.toNat_inj.mp zero)
  have last : (region.base + region.size - 1).toNat = (region.base + region.size).toNat - 1 :=
    UInt32.toNat_sub_of_le _ _ (UInt32.le_iff_toNat_le.mpr positive)
  simp only [lmbHolds, Option.isSome_ite, UInt32.le_iff_toNat_le, UInt32.lt_iff_toNat_lt]
  omega

variable {live : List LmbProperty}

theorem lmbIsReserved_lists {lmb : Lmb} (lists : lmb.reserved.Lists live) {addr : UInt32} :
    lmbIsReserved lmb addr = .ok (live.any fun region => (lmbHolds addr region).isSome) := by
  rw [lmbIsReserved, lists.search]
  change Except.ok _ = _
  congr 1
  rw [Bool.eq_iff_iff, Option.isSome_iff_ne_none, ne_eq, firstHit_eq_none_iff, List.any_eq_true]
  push Not
  simp only [Option.isSome_iff_ne_none]

theorem lmbIsReserved_eq (lists : lmb.reserved.Lists live)
    (proper : ∀ region ∈ live, region.Proper) (addr : UInt32) :
    ∃ answer, lmbIsReserved lmb addr = .ok answer ∧ (answer = true ↔ Reserved live addr.toNat) := by
  refine ⟨_, lmbIsReserved_lists lists, List.any_eq_true.trans ?_⟩
  refine exists_congr fun region => and_congr_right fun member => ?_
  have stop := LmbProperty.toNat_end (proper region member).inside
  have lt := (proper region member).lt
  rw [lmbHolds_isSome_iff, UInt32.le_iff_toNat_le, UInt32.lt_iff_toNat_lt, stop]
  · rfl
  · intro zero
    rw [zero] at stop
    exact Nat.not_lt_zero _ (stop ▸ lt)

/-! ## What an allocation reserves -/

variable {reserved : LmbRegion} {size : UInt32}

theorem lmbSearchLoop_returns
    (searched : lmbSearchLoop reserved lmbbase size align fuel base = .ok (.returns result after)) :
    ∃ found ret, found ≠ 0 ∧ lmbOverlapsRegion reserved found size = .ok none ∧
      lmbAddRegion reserved found (lmbAlignUp size align) = .ok (ret, after) ∧
      result = if ret < 0 then 0 else found := by
  induction fuel generalizing base with
  | zero => cases searched
  | succ fuel induction =>
    rw [lmbSearchLoop] at searched
    split at searched
    case isFalse => cases searched
    case isTrue above =>
      rw [Exec.bind_eq_ok_iff] at searched
      obtain ⟨hit, overlaps, searched⟩ := searched
      cases hit with
      | none =>
        rw [Exec.bind_eq_ok_iff] at searched
        obtain ⟨⟨ret, next⟩, added, returned⟩ := searched
        cases returned
        exact ⟨base, ret, above.1, overlaps, added, rfl⟩
      | some region =>
        dsimp only at searched
        split at searched
        · cases searched
        · exact induction searched

theorem lmbAllocLoop_found
    (allocated : lmbAllocLoop lmb size align maxAddr count = .ok (result, next)) :
    (result = 0 ∧ next = lmb) ∨ ∃ region ∈ lmb.memory.region.take count, ∃ base after,
      lmbTop region size align maxAddr = some base ∧
      lmbSearchLoop lmb.reserved region.base size align (base.toNat + 1) base =
        .ok (.returns result after) ∧ next = { lmb with reserved := after } := by
  induction count with
  | zero =>
    cases allocated
    exact .inl ⟨rfl, rfl⟩
  | succ count induction =>
    rw [lmbAllocLoop, Exec.bind_eq_ok_iff] at allocated
    obtain ⟨rgn, loaded, allocated⟩ := allocated
    rw [load_eq_ok_iff] at loaded
    rw [List.take_add_one, loaded]
    simp only [List.mem_append, or_and_right, exists_or]
    cases top : lmbTop rgn size align maxAddr with
    | none =>
      rw [top] at allocated
      exact (induction allocated).imp_right .inl
    | some base =>
      rw [top] at allocated
      dsimp only at allocated
      rw [Exec.bind_eq_ok_iff] at allocated
      obtain ⟨outcome, searched, allocated⟩ := allocated
      cases outcome with
      | continues => exact (induction allocated).imp_right .inl
      | returns base' reserved =>
        cases allocated
        exact .inr (.inr ⟨rgn, by simp, base, reserved, top, searched, rfl⟩)

theorem lmbAllocLoop_returns
    (allocated : lmbAllocLoop lmb size align maxAddr count = .ok (result, next))
    (found : result ≠ 0) :
    lmbOverlapsRegion lmb.reserved result size = .ok none ∧
      ∃ ret after, lmbAddRegion lmb.reserved result (lmbAlignUp size align) = .ok (ret, after) ∧
        0 ≤ ret ∧ next = { lmb with reserved := after } := by
  obtain ⟨_, _, _, after, _, searched, rfl⟩ :=
    (lmbAllocLoop_found allocated).resolve_left fun failed => found failed.1
  obtain ⟨base, ret, _, free, added, rfl⟩ := lmbSearchLoop_returns searched
  have succeeds : ¬ ret < 0 := fun negative => found (if_pos negative)
  rw [if_neg succeeds]
  exact ⟨free, ret, after, added, by omega, rfl⟩

theorem not_overlaps (lists : reserved.Lists live)
    (inside : ∀ region ∈ live, region.stop < 2 ^ 32) (proper : (⟨base, size⟩ : LmbProperty).Proper)
    (free : lmbOverlapsRegion reserved base size = .ok none) : MeetsNone live ⟨base, size⟩ := by
  intro region member
  have missed : firstHit (lmbOverlaps base size) 0 live = none := by
    rw [lmbOverlapsRegion, lists.search] at free
    cases hit : firstHit (lmbOverlaps base size) 0 live with
    | none => rfl
    | some found =>
      rw [hit] at free
      cases free
  have here := (firstHit_eq_none_iff ..).mp missed region member
  have regionEnd := LmbProperty.toNat_end (inside region member)
  have newEnd := LmbProperty.toNat_end proper.inside
  simp only [lmbOverlaps, lmbAddrsOverlap, Bool.and_eq_true, decide_eq_true_eq, ite_eq_right_iff,
    reduceCtorEq, imp_false, UInt32.lt_iff_toNat_lt, regionEnd, newEnd] at here
  simp only [LmbProperty.first] at here ⊢
  omega

/-- A call into `lmb.c`; an allocation with the address that it returned. -/
inductive LmbCall
  | add (base size : UInt32)
  | reserve (base size : UInt32)
  | free (base size : UInt32)
  | allocBase (size align maxAddr result : UInt32)

namespace LmbCall

/-- The call returns, and does not return an error. -/
def Succeeds (lmb : Lmb) (call : LmbCall) (next : Lmb) : Prop :=
  match call with
  | .add base size => ∃ ret, lmbAdd lmb base size = .ok (ret, next) ∧ 0 ≤ ret
  | .reserve base size => ∃ ret, lmbReserve lmb base size = .ok (ret, next) ∧ 0 ≤ ret
  | .free base size => ∃ ret, lmbFree lmb base size = .ok (ret, next) ∧ 0 ≤ ret
  | .allocBase size align maxAddr result =>
      lmbAllocBase lmb size align maxAddr = .ok (result, next) ∧ result ≠ 0

def interval : LmbCall → Option LmbProperty
  | .add _ _ => none
  | .reserve base size => some ⟨base, size⟩
  | .free base size => some ⟨base, size⟩
  | .allocBase size _ _ result => some ⟨result, size⟩

end LmbCall

def LmbProperty.addresses (region : LmbProperty) : Set Nat :=
  {address | region.first ≤ address ∧ address < region.stop}

def LmbCall.record (set : Set Nat) : LmbCall → Set Nat
  | .add _ _ => set
  | .reserve base size => set ∪ LmbProperty.addresses ⟨base, size⟩
  | .free base size => set \ LmbProperty.addresses ⟨base, size⟩
  | .allocBase size _ _ result => set ∪ LmbProperty.addresses ⟨result, size⟩

def recorded (calls : List LmbCall) : Set Nat := calls.foldl LmbCall.record ∅

/-- A successful call about an interval that is not empty and does not reach the
end of the address space. -/
def LmbStep (lmb : Lmb) (call : LmbCall) (next : Lmb) : Prop :=
  call.Succeeds lmb next ∧ ∀ interval ∈ call.interval, interval.Proper

/-- When the table can take the call: it still has a region, a reserved interval
is in it or meets none of its regions, and an allocation has an aligned size. -/
def LmbCall.Fits (lmb : Lmb) : LmbCall → Prop
  | .add _ _ => True
  | .reserve base size => lmb.reserved.cnt ≠ 0 ∧
      (⟨base, size⟩ ∈ lmb.reserved.regions ∨ ∀ region ∈ lmb.reserved.regions,
        region.stop ≤ base.toNat ∨ (⟨base, size⟩ : LmbProperty).stop ≤ region.first)
  | .free _ _ => True
  | .allocBase size align _ _ => lmb.reserved.cnt ≠ 0 ∧ lmbAlignUp size align = size

def FittingLmbStep (lmb : Lmb) (call : LmbCall) (next : Lmb) : Prop :=
  LmbStep lmb call next ∧ call.Fits lmb

/-! ## The table follows the set -/

def LmbRegion.Tracks (rgn : LmbRegion) (set : Set Nat) : Prop :=
  ∃ live, rgn.Lists live ∧ Apart live ∧ ∀ address, address ∈ set ↔ Reserved live address

section

variable {rgn next : LmbRegion} {set : Set Nat} {base size : UInt32} {ret : Int}

theorem LmbRegion.tracks_single (lists : rgn.Lists [⟨base, size⟩])
    (proper : (⟨base, size⟩ : LmbProperty).Proper) :
    rgn.Tracks (∅ ∪ LmbProperty.addresses ⟨base, size⟩) := by
  refine ⟨_, lists, ⟨by simpa using proper, List.pairwise_singleton _ _⟩, fun address => ?_⟩
  simp [LmbProperty.addresses]

theorem LmbRegion.Tracks.add (tracks : rgn.Tracks set)
    (proper : (⟨base, size⟩ : LmbProperty).Proper) (nonempty : rgn.cnt ≠ 0)
    (fits : ⟨base, size⟩ ∈ rgn.regions ∨ MeetsNone rgn.regions ⟨base, size⟩)
    (added : lmbAddRegion rgn base size = .ok (ret, next)) (nonnegative : 0 ≤ ret) :
    next.Tracks (set ∪ LmbProperty.addresses ⟨base, size⟩) := by
  obtain ⟨live, lists, apart, same⟩ := tracks
  rw [lists.regions_eq] at fits
  have listed : live ≠ [] := by
    rintro rfl
    exact nonempty (UInt32.toNat_inj.mp lists.cnt)
  have addition : LmbAdded rgn live ⟨base, size⟩ ret next := lists.added listed added
  obtain ⟨after, listed', apart', covers⟩ :=
    addition.adds_apart lists listed apart proper fits nonnegative
  refine ⟨after, listed', apart', fun address => ?_⟩
  rw [Set.mem_union, covers, same]
  rfl

theorem LmbRegion.Tracks.free (tracks : rgn.Tracks set)
    (proper : (⟨base, size⟩ : LmbProperty).Proper)
    (freed : lmbFreeRegion rgn base size = .ok (ret, next)) (nonnegative : 0 ≤ ret) :
    next.Tracks (set \ LmbProperty.addresses ⟨base, size⟩) := by
  obtain ⟨live, lists, apart, same⟩ := tracks
  have release : LmbFreed rgn live base size ret next := lists.freed freed
  obtain ⟨after, listed, apart', covers⟩ := release.frees apart proper nonnegative
  refine ⟨after, listed, apart', fun address => ?_⟩
  rw [Set.mem_sdiff, covers, same]
  rfl

def LmbRegion.Follows (rgn : LmbRegion) (set : Set Nat) : Prop :=
  rgn.Lists [⟨0, 0⟩] ∧ set = ∅ ∨ rgn.Tracks set

theorem LmbRegion.Follows.add (follows : rgn.Follows set)
    (proper : (⟨base, size⟩ : LmbProperty).Proper) (nonempty : rgn.cnt ≠ 0)
    (fits : rgn.Tracks set → ⟨base, size⟩ ∈ rgn.regions ∨ MeetsNone rgn.regions ⟨base, size⟩)
    (added : lmbAddRegion rgn base size = .ok (ret, next)) (nonnegative : 0 ≤ ret) :
    next.Tracks (set ∪ LmbProperty.addresses ⟨base, size⟩) := by
  rcases follows with ⟨dummy, rfl⟩ | tracks
  · obtain ⟨single, added', lists⟩ := @LmbRegion.Lists.add_first rgn base size dummy
    rw [added] at added'
    cases added'
    exact LmbRegion.tracks_single lists proper
  · exact tracks.add proper nonempty (fits tracks) added nonnegative

-- The dummy region contains no interval, so nothing can be freed before the first reservation.
theorem LmbRegion.Follows.free (follows : rgn.Follows set)
    (proper : (⟨base, size⟩ : LmbProperty).Proper)
    (freed : lmbFreeRegion rgn base size = .ok (ret, next)) (nonnegative : 0 ≤ ret) :
    next.Tracks (set \ LmbProperty.addresses ⟨base, size⟩) := by
  rcases follows with ⟨dummy, _⟩ | tracks
  · have lt := proper.lt
    have newEnd : (base + size).toNat = (⟨base, size⟩ : LmbProperty).stop :=
      LmbProperty.toNat_end proper.inside
    have outside : ¬ (0 ≤ base ∧ base + size ≤ 0 + 0) := by
      rintro ⟨_, upper⟩
      rw [UInt32.le_iff_toNat_le] at upper
      change _ ≤ 0 at upper
      omega
    simp only [lmbFreeRegion, dummy.search, firstHit, lmbContains, outside, if_false, bind,
      Except.bind, pure, Except.pure] at freed
    cases freed
    exact absurd nonnegative (by decide)
  · exact tracks.free proper freed nonnegative

end

variable {lmb next : Lmb} {base size : UInt32} {ret : Int}

theorem lmbReserve_eq_ok (reserved : lmbReserve lmb base size = .ok (ret, next)) :
    lmbAddRegion lmb.reserved base size = .ok (ret, next.reserved) := by
  rw [lmbReserve, Exec.bind_eq_ok_iff] at reserved
  obtain ⟨reply, added, returned⟩ := reserved
  cases returned
  exact added

theorem lmbFree_eq_ok (freed : lmbFree lmb base size = .ok (ret, next)) :
    lmbFreeRegion lmb.reserved base size = .ok (ret, next.reserved) := by
  rw [lmbFree, Exec.bind_eq_ok_iff] at freed
  obtain ⟨reply, removed, returned⟩ := freed
  cases returned
  exact removed

theorem lmbAdd_reserved (added : lmbAdd lmb base size = .ok (ret, next)) :
    next.reserved = lmb.reserved := by
  rw [lmbAdd, Exec.bind_eq_ok_iff] at added
  obtain ⟨reply, _, returned⟩ := added
  cases returned
  rfl

theorem FittingLmbStep.tracks {call : LmbCall} {set : Set Nat} (step : FittingLmbStep lmb call next)
    (follows : lmb.reserved.Follows set) (reserves : call.interval ≠ none) :
    next.reserved.Tracks (call.record set) := by
  obtain ⟨⟨succeeds, proper⟩, fits⟩ := step
  cases call with
  | add base size => exact absurd rfl reserves
  | reserve base size =>
    obtain ⟨ret, reserved, nonnegative⟩ := succeeds
    exact follows.add (proper _ rfl) fits.1 (fun _ => fits.2) (lmbReserve_eq_ok reserved)
      nonnegative
  | free base size =>
    obtain ⟨ret, freed, nonnegative⟩ := succeeds
    exact follows.free (proper _ rfl) (lmbFree_eq_ok freed) nonnegative
  | allocBase size align maxAddr result =>
    obtain ⟨allocated, found⟩ := succeeds
    obtain ⟨nonempty, aligned⟩ := fits
    obtain ⟨free, ret, after, added, nonnegative, rfl⟩ := lmbAllocLoop_returns allocated found
    rw [aligned] at added
    refine follows.add (proper _ rfl) nonempty ?_ added nonnegative
    rintro ⟨live, lists, apart, _⟩
    rw [lists.regions_eq]
    exact .inr (not_overlaps lists (fun region member => (apart.proper region member).inside)
      (proper _ rfl) free)

/-- Along a run the table follows the set; after the first call about reserved
addresses it tracks it. -/
theorem FittingLmbStep.run_tracks {first last : Lmb} {calls : List LmbCall}
    (run : Run FittingLmbStep first calls last) {set : Set Nat}
    (follows : first.reserved.Follows set)
    (reserves : first.reserved.Tracks set ∨ ∃ call ∈ calls, call.interval ≠ none) :
    last.reserved.Tracks (calls.foldl LmbCall.record set) := by
  induction run generalizing set with
  | nil => simpa using reserves
  | @cons first middle last call calls head _ induction =>
    by_cases memory : call.interval = none
    · cases call with
      | add base size =>
        obtain ⟨ret, added, _⟩ := head.1.1
        have same := lmbAdd_reserved added
        rw [← same] at follows reserves
        apply induction follows
        simpa [memory] using reserves
      | reserve base size => cases memory
      | free base size => cases memory
      | allocBase size align maxAddr result => cases memory
    · have tracks := FittingLmbStep.tracks head follows memory
      exact induction (.inr tracks) (.inl tracks)

theorem lmbInit_lists (slots : lmb.reserved.region.length = MAX_LMB_REGIONS + 1) :
    (lmbInit lmb).reserved.Lists [⟨0, 0⟩] := by
  cases region : lmb.reserved.region with
  | nil =>
    rw [region] at slots
    cases slots
  | cons slot stale =>
    rw [region] at slots
    refine ⟨rfl, ⟨stale, ?_, ?_⟩, by decide⟩
    · simp [lmbInit, region]
    · simpa [Nat.add_comm] using slots

/-- After `lmb_init` and calls that the table can take, at least one of them about
reserved addresses, `lmb_is_reserved` is membership in the recorded set. -/
theorem reserved_iff_recorded {lmb last : Lmb} {calls : List LmbCall}
    (slots : lmb.reserved.region.length = MAX_LMB_REGIONS + 1)
    (run : Run FittingLmbStep (lmbInit lmb) calls last)
    (reserves : ∃ call ∈ calls, call.interval ≠ none) (addr : UInt32) :
    ∃ answer, lmbIsReserved last addr = .ok answer ∧
      (answer = true ↔ addr.toNat ∈ recorded calls) := by
  obtain ⟨live, lists, apart, same⟩ := FittingLmbStep.run_tracks run
    (.inl ⟨lmbInit_lists slots, rfl⟩) (.inr reserves)
  obtain ⟨answer, returned, holds⟩ := lmbIsReserved_eq lists apart.proper addr
  exact ⟨answer, returned, holds.trans (same addr.toNat).symm⟩

def zeroLmb : Lmb where
  memory := ⟨0, List.replicate (MAX_LMB_REGIONS + 1) ⟨0, 0⟩⟩
  reserved := ⟨0, List.replicate (MAX_LMB_REGIONS + 1) ⟨0, 0⟩⟩

def lmbTable (cnt : UInt32) (regions : List LmbProperty) : LmbRegion :=
  ⟨cnt, regions ++ List.replicate (MAX_LMB_REGIONS + 1 - regions.length) ⟨0, 0⟩⟩

theorem reserved_iff_recorded_alloc :
    let calls : List LmbCall := [.add 0x1000 0x900, .reserve 0x1800 0x100,
      .allocBase 0x100 0x100 0 0x1700, .free 0x1780 0x40]
    ∃ last, Run FittingLmbStep (lmbInit zeroLmb) calls last ∧
      ∃ answer, lmbIsReserved last 0x1700 = .ok answer ∧
        (answer = true ↔ (0x1700 : UInt32).toNat ∈ recorded calls) := by
  intro calls
  let memory := lmbTable 1 [⟨0x1000, 0x900⟩]
  have run : Run FittingLmbStep (lmbInit zeroLmb) calls
      ⟨memory, lmbTable 2 [⟨0x1700, 0x80⟩, ⟨0x17c0, 0x140⟩]⟩ := by
    apply @Run.cons _ _ _ _ ⟨memory, lmbTable 1 []⟩
    · exact ⟨⟨⟨0, by decide +kernel, by decide⟩, by rintro _ ⟨⟩⟩, trivial⟩
    apply @Run.cons _ _ _ _ ⟨memory, lmbTable 1 [⟨0x1800, 0x100⟩]⟩
    · refine ⟨⟨⟨0, by decide +kernel, by decide⟩, ?_⟩, by decide, .inr (by decide)⟩
      rintro _ ⟨⟩
      decide
    apply @Run.cons _ _ _ _ ⟨memory, lmbTable 1 [⟨0x1700, 0x200⟩]⟩
    · refine ⟨⟨⟨by decide +kernel, by decide⟩, ?_⟩, by decide, by decide⟩
      rintro _ ⟨⟩
      decide
    apply @Run.cons _ _ _ _ ⟨memory, lmbTable 2 [⟨0x1700, 0x80⟩, ⟨0x17c0, 0x140⟩]⟩
    · refine ⟨⟨⟨0, by decide +kernel, by decide⟩, ?_⟩, trivial⟩
      rintro _ ⟨⟩
      decide
    exact Run.nil _
  exact ⟨_, run, reserved_iff_recorded (by decide) run
    ⟨.reserve 0x1800 0x100, by simp [calls], by simp [LmbCall.interval]⟩ 0x1700⟩

/-- A reservation that is made after every region was freed is lost, and the
region that was freed last is reserved again. -/
theorem reserve_after_free_lost :
    let calls : List LmbCall := [.reserve 0x1000 0x100, .free 0x1000 0x100,
      .reserve 0x2000 0x100]
    ∃ last, Run LmbStep (lmbInit zeroLmb) calls last ∧
      lmbIsReserved last 0x2000 = .ok false ∧ 0x2000 ∈ recorded calls ∧
      lmbIsReserved last 0x1000 = .ok true ∧ 0x1000 ∉ recorded calls := by
  intro calls
  have run : Run LmbStep (lmbInit zeroLmb) calls ⟨lmbTable 1 [], lmbTable 1 [⟨0x1000, 0x100⟩]⟩ := by
    apply @Run.cons _ _ _ _ ⟨lmbTable 1 [], lmbTable 1 [⟨0x1000, 0x100⟩]⟩
    · refine ⟨⟨0, by decide +kernel, by decide⟩, ?_⟩
      rintro _ ⟨⟩
      decide
    apply @Run.cons _ _ _ _ ⟨lmbTable 1 [], lmbTable 0 [⟨0x1000, 0x100⟩]⟩
    · refine ⟨⟨0, by decide +kernel, by decide⟩, ?_⟩
      rintro _ ⟨⟩
      decide
    apply @Run.cons _ _ _ _ ⟨lmbTable 1 [], lmbTable 1 [⟨0x1000, 0x100⟩]⟩
    · refine ⟨⟨0, by decide +kernel, by decide⟩, ?_⟩
      rintro _ ⟨⟩
      decide
    exact Run.nil _
  refine ⟨_, run, by decide +kernel, .inr ⟨by decide, by decide⟩, by decide +kernel, ?_⟩
  rintro (⟨_, outside⟩ | ⟨lower, _⟩)
  · exact outside ⟨by decide, by decide⟩
  · exact absurd lower (by decide)

end UBootV210.Library
