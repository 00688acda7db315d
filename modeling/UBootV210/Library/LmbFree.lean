import UBootV210.Library.LmbCalls

/-! # Freeing that fails

`lmb_free` shortens a region before it adds the part behind the freed one again,
and that addition fails when the table is full. -/

namespace UBootV210.Library

open CheckedMemory Intervals

structure LmbRegion.Shaped (rgn : LmbRegion) : Prop where
  capacity : rgn.cnt.toNat ≤ MAX_LMB_REGIONS
  slots : rgn.region.length = MAX_LMB_REGIONS + 1

variable {rgn : LmbRegion}

theorem LmbRegion.Shaped.lists (shaped : rgn.Shaped) : rgn.Lists rgn.regions := by
  have capacity := shaped.capacity
  have length : rgn.regions.length = rgn.cnt.toNat := by
    rw [LmbRegion.regions, List.length_take, shaped.slots]
    omega
  refine ⟨length.symm, ⟨rgn.region.drop rgn.cnt.toNat, ?_, ?_⟩, length ▸ capacity⟩
  · rw [LmbRegion.regions, List.take_append_drop]
  · rw [length, List.length_drop, shaped.slots]
    omega

variable {live : List LmbProperty}

theorem LmbRegion.Lists.shaped (lists : rgn.Lists live) : rgn.Shaped := by
  obtain ⟨stale, slots, total⟩ := lists.slots
  refine ⟨lists.cnt ▸ lists.capacity, ?_⟩
  rw [slots, List.length_append, total]

variable {region : List LmbProperty} {count i : Nat}

theorem lmbRemoveLoop_bound (moved : lmbRemoveLoop count i region = .ok next) :
    count = 0 ∨ i + count < region.length := by
  induction count generalizing i region with
  | zero => exact .inl rfl
  | succ count induction =>
    rw [lmbRemoveLoop, Exec.bind_eq_ok_iff] at moved
    obtain ⟨upper, loaded, moved⟩ := moved
    rw [Exec.bind_eq_ok_iff] at moved
    obtain ⟨shifted, stored, moved⟩ := moved
    have inside := (List.getElem?_eq_some_iff.mp (load_eq_ok_iff.mp loaded)).1
    have rest := induction moved
    rw [← (store_eq_ok_iff.mp stored).2, List.length_set] at rest
    omega

variable {next : LmbRegion} {ret : Int}

-- With a count of 0 the loop of a removal would run behind the slots.
theorem LmbRegion.Shaped.joinNext_empty (shaped : rgn.Shaped) (empty : rgn.cnt = 0)
    (joined : lmbJoinNext rgn 0 = .ok (ret, next)) : ret = 0 ∧ next = rgn := by
  rw [lmbJoinNext] at joined
  split at joined
  case isFalse =>
    cases joined
    exact ⟨rfl, rfl⟩
  case isTrue =>
    rw [Exec.bind_eq_ok_iff] at joined
    obtain ⟨adjacent, compared, joined⟩ := joined
    split at joined
    case isFalse =>
      cases joined
      exact ⟨rfl, rfl⟩
    case isTrue =>
      rw [Exec.bind_eq_ok_iff] at joined
      obtain ⟨coalesced, merged, _⟩ := joined
      simp only [lmbCoalesceRegions, lmbRemoveRegion, Exec.bind_eq_ok_iff] at merged
      obtain ⟨_, _, _, _, slots, stored, _, moved, _⟩ := merged
      have bound := lmbRemoveLoop_bound moved
      have length := shaped.slots
      rw [← (store_eq_ok_iff.mp stored).2, List.length_set, length, empty] at bound
      exact absurd bound (by decide)

variable {base size : UInt32}

theorem exists_cut_above (base : UInt32) (live : List LmbProperty) :
    ∃ before after, live = before ++ after ∧
      (∀ region ∈ before.getLast?, ¬ base < region.base) ∧
        ∀ region ∈ after, base < region.base := by
  induction live using List.reverseRecOn with
  | nil => exact ⟨[], [], rfl, by simp, by simp⟩
  | append_singleton live region induction =>
    by_cases above : base < region.base
    · obtain ⟨before, after, rfl, lower, upper⟩ := induction
      exact ⟨before, after ++ [region], by simp, lower,
        List.forall_mem_append.mpr ⟨upper, by simpa using above⟩⟩
    · exact ⟨live ++ [region], [], by simp, by simpa using above, by simp⟩

theorem LmbRegion.Shaped.insert (shaped : rgn.Shaped) (room : rgn.regions.length < MAX_LMB_REGIONS)
    (inserted : lmbInsert rgn base size = .ok next) :
    next.Shaped ∧ (rgn.regions ≠ [] → ⟨base, size⟩ ∈ next.regions) := by
  have lists := shaped.lists
  obtain ⟨before, after, cut, lower, upper⟩ := exists_cut_above base rgn.regions
  rw [cut] at lists room ⊢
  obtain ⟨_, regions, inserted', listed, placed⟩ := lists.insert size room lower upper
  rw [inserted] at inserted'
  cases inserted'
  exact ⟨listed.shaped, fun nonempty => listed.regions_eq ▸ (placed nonempty).1⟩

/-! ## Every call keeps the shape -/

-- Without a region the loops have nothing to look at, and a coalescing of the two
-- stale slots at the front does not end.
theorem LmbRegion.Shaped.add_empty (shaped : rgn.Shaped) (empty : rgn.regions = [])
    (added : lmbAddRegion rgn base size = .ok (ret, next)) : next.Shaped := by
  have lists := shaped.lists
  rw [empty] at lists
  have none : rgn.cnt = 0 := UInt32.toNat_inj.mp lists.cnt
  rw [lmbAddRegion, Exec.bind_eq_ok_iff] at added
  obtain ⟨first, _, added⟩ := added
  rw [if_neg (by simp [none]), lists.search, Exec.ok_bind] at added
  change (lmbJoinNext rgn rgn.cnt.toNat >>= _) = _ at added
  rw [Exec.bind_eq_ok_iff] at added
  obtain ⟨⟨coalesced, joined⟩, joins, added⟩ := added
  rw [none] at joins
  obtain ⟨rfl, rfl⟩ := shaped.joinNext_empty none joins
  dsimp only at added
  rw [if_neg (by simp), if_neg (by rw [none]; decide), Exec.bind_eq_ok_iff] at added
  obtain ⟨grown, inserted, returned⟩ := added
  cases returned
  exact (shaped.insert (by rw [empty]; decide) inserted).1

theorem LmbRegion.Shaped.add (shaped : rgn.Shaped)
    (added : lmbAddRegion rgn base size = .ok (ret, next)) :
    next.Shaped := by
  by_cases empty : rgn.regions = []
  · exact shaped.add_empty empty added
  · have addition : LmbAdded rgn rgn.regions ⟨base, size⟩ ret next :=
      shaped.lists.added empty added
    cases addition with
    | dummy _ _ lists => exact lists.shaped
    | same _ => exact shaped
    | grown _ _ _ lists => exact lists.shaped
    | full _ _ => exact shaped
    | inserted _ room stored => exact (shaped.insert room stored).1

theorem LmbRegion.Shaped.free (shaped : rgn.Shaped)
    (freed : lmbFreeRegion rgn base size = .ok (ret, next)) :
    next.Shaped := by
  cases shaped.lists.freed freed with
  | missed => exact shaped
  | kept _ _ _ lists => exact lists.shaped
  | split _ _ _ _ _ lists added => exact lists.shaped.add added

def LmbCall.Returns (lmb : Lmb) (call : LmbCall) (next : Lmb) : Prop :=
  match call with
  | .add base size => ∃ ret, lmbAdd lmb base size = .ok (ret, next)
  | .reserve base size => ∃ ret, lmbReserve lmb base size = .ok (ret, next)
  | .free base size => ∃ ret, lmbFree lmb base size = .ok (ret, next)
  | .allocBase size align maxAddr result =>
      lmbAllocBase lmb size align maxAddr = .ok (result, next)

theorem lmbAllocLoop_reserved {lmb next : Lmb}
    (allocated : lmbAllocLoop lmb size align maxAddr count = .ok (result, next)) :
    next.reserved = lmb.reserved ∨
      ∃ found ret, lmbAddRegion lmb.reserved found (lmbAlignUp size align) =
        .ok (ret, next.reserved) ∧ (result = 0 → ret < 0) := by
  rcases lmbAllocLoop_found allocated with ⟨_, rfl⟩ | ⟨_, _, _, after, _, searched, rfl⟩
  · exact .inl rfl
  · obtain ⟨base, ret, nonzero, _, added, rfl⟩ := lmbSearchLoop_returns searched
    refine .inr ⟨base, ret, added, fun zero => ?_⟩
    by_contra succeeds
    exact nonzero ((if_neg succeeds).symm.trans zero)

theorem LmbCall.Returns.reserved {lmb next : Lmb} {call : LmbCall}
    (returns : call.Returns lmb next) :
    next.reserved = lmb.reserved ∨
      (∃ base size ret, lmbAddRegion lmb.reserved base size = .ok (ret, next.reserved)) ∨
      ∃ base size ret, call = .free base size ∧
        lmbFreeRegion lmb.reserved base size = .ok (ret, next.reserved) := by
  cases call with
  | add base size =>
    obtain ⟨ret, added⟩ := returns
    exact .inl (lmbAdd_reserved added)
  | reserve base size =>
    obtain ⟨ret, reserved⟩ := returns
    exact .inr (.inl ⟨base, size, ret, lmbReserve_eq_ok reserved⟩)
  | free base size =>
    obtain ⟨ret, freed⟩ := returns
    exact .inr (.inr ⟨base, size, ret, rfl, lmbFree_eq_ok freed⟩)
  | allocBase size align maxAddr result =>
    exact (lmbAllocLoop_reserved returns).imp_right fun ⟨found, ret, added, _⟩ =>
      .inl ⟨found, _, ret, added⟩

theorem LmbCall.Returns.shaped {lmb next : Lmb} {call : LmbCall} (returns : call.Returns lmb next)
    (shaped : lmb.reserved.Shaped) : next.reserved.Shaped := by
  rcases returns.reserved with same | ⟨_, _, _, added⟩ | ⟨_, _, _, _, freed⟩
  · exact same ▸ shaped
  · exact shaped.add added
  · exact shaped.free freed

theorem LmbCall.Returns.run_shaped (slots : start.reserved.region.length = MAX_LMB_REGIONS + 1)
    (run : Run LmbCall.Returns (lmbInit start) calls last) : last.reserved.Shaped :=
  run.invariant (fun returns shaped => LmbCall.Returns.shaped returns shaped)
    (lmbInit_lists slots).shaped

/-! ## A free that fails -/

/-- The free would cut a region in two, and the table is full and has no region to
which the upper part could be joined. -/
structure SplitRefused (base size : UInt32) (before : List LmbProperty) (found : LmbProperty)
    (after : List LmbProperty) : Prop where
  passed : ∀ region ∈ before, lmbContains base (base + size) region = none
  contains : lmbContains base (base + size) found = some ()
  lower : found.base ≠ base
  upper : found.base + found.size ≠ base + size
  full : MAX_LMB_REGIONS ≤ (before ++ found :: after).length
  untouched : ∀ region ∈ before ++ ⟨found.base, base - found.base⟩ :: after,
    lmbTouch (base + size) (found.base + found.size - (base + size)) region = none

/-- Such a free loses an address: one between the base and the end of the region,
which no other region of the table has. -/
def LosesCut (live : List LmbProperty) (base size : UInt32) : Prop :=
  ∃ before found after, live = before ++ found :: after ∧
    SplitRefused base size before found after ∧
    ∃ addr, found.base ≤ addr ∧ (base ≤ addr ∧ addr < found.base + found.size ∨
        found.base + found.size ≤ addr ∧ addr < base) ∧
      ∀ other ∈ before ++ after, lmbHolds addr other = none

variable {before after : List LmbProperty}

theorem lmbFreeRegion_refused (lists : rgn.Lists (before ++ found :: after))
    (refused : SplitRefused base size before found after) :
    ∃ next, lmbFreeRegion rgn base size = .ok (-1, next) ∧
      next.Lists (before ++ ⟨found.base, base - found.base⟩ :: after) := by
  obtain ⟨slots, stored, shortened⟩ := lists.store ⟨found.base, base - found.base⟩
  refine ⟨{ rgn with region := slots }, ?_, shortened⟩
  have hit : firstHit (lmbContains base (base + size)) 0 (before ++ found :: after) =
      some (before.length, found, ()) :=
    (firstHit_eq_some_iff ..).mpr
      ⟨before, after, rfl, (Nat.zero_add _).symm, refused.contains, refused.passed⟩
  have missed := (firstHit_eq_none_iff _ 0 _).mpr refused.untouched
  have full : MAX_LMB_REGIONS ≤ rgn.cnt.toNat := lists.cnt ▸ refused.full
  have notOne : rgn.cnt ≠ 1 := by
    intro one
    rw [one] at full
    exact absurd full (by decide)
  have stays : lmbJoinNext { rgn with region := slots } rgn.cnt.toNat =
      .ok (0, { rgn with region := slots }) := by
    have above := shortened.not_cnt_lt_cnt_sub_one (by simp)
    rw [lmbJoinNext, if_neg above]
    rfl
  obtain ⟨first, loaded⟩ : ∃ first, CheckedMemory.load slots 0 = .ok first := by
    have shaped := shortened.shaped.slots
    cases slots with
    | nil => cases shaped
    | cons first rest => exact ⟨first, rfl⟩
  have searched := shortened.search
    (lmbTouch (base + size) (found.base + found.size - (base + size)))
  rw [missed] at searched
  simp only [lmbFreeRegion, lists.search, hit, Exec.ok_bind, refused.lower, refused.upper,
    false_and, if_false, stored, lmbAddRegion, loaded, notOne, searched, stays, full, ge_iff_le,
    if_true, ne_eq, not_true_eq_false]
  rfl

theorem lmbFreeRegion_fails (lists : rgn.Lists live)
    (freed : lmbFreeRegion rgn base size = .ok (ret, next)) (fails : ret < 0) :
    next = rgn ∨ ∃ before found after, live = before ++ found :: after ∧
      SplitRefused base size before found after ∧
      next.Lists (before ++ ⟨found.base, base - found.base⟩ :: after) := by
  cases lists.freed freed with
  | missed => exact .inl rfl
  | kept _ _ _ _ => exact absurd fails (by decide)
  | @split before after found short _ _ shape passed contains lower upper shortened added =>
    have addition : LmbAdded short _ ⟨base + size, found.base + found.size - (base + size)⟩ ret
        next := shortened.added (by simp) added
    obtain ⟨rfl, untouched, full⟩ := addition.refused fails
    refine .inr ⟨before, found, after, shape, ?_, shortened⟩
    exact ⟨passed, contains, lower, upper, by simpa using full, untouched⟩

theorem shortened_differs_iff (refused : SplitRefused base size before found after) :
    ((before ++ ⟨found.base, base - found.base⟩ :: after).any
          (fun region => (lmbHolds addr region).isSome) ≠
        (before ++ found :: after).any fun region => (lmbHolds addr region).isSome) ↔
      found.base ≤ addr ∧ (base ≤ addr ∧ addr < found.base + found.size ∨
          found.base + found.size ≤ addr ∧ addr < base) ∧
        ∀ other ∈ before ++ after, lmbHolds addr other = none := by
  obtain ⟨inside, within⟩ : found.base ≤ base ∧ base + size ≤ found.base + found.size := by
    simpa [lmbContains] using refused.contains
  have end' : found.base + (base - found.base) = base := by
    rw [UInt32.add_comm, UInt32.sub_add_cancel]
  -- The shortened region has the addresses below the base, the whole one those below its end.
  have short := @lmbHolds_isSome_iff ⟨found.base, base - found.base⟩ (by
    rw [end']
    rintro rfl
    exact refused.lower (UInt32.le_zero_iff.mp inside)) addr
  have whole := @lmbHolds_isSome_iff found (fun zero => by
    rw [zero] at within
    exact refused.upper (zero.trans (UInt32.le_zero_iff.mp within).symm)) addr
  rw [end'] at short
  have others : (∀ other ∈ before ++ after, lmbHolds addr other = none) ↔
      (before.any fun region => (lmbHolds addr region).isSome) = false ∧
        (after.any fun region => (lmbHolds addr region).isSome) = false := by
    simp only [List.mem_append, or_imp, forall_and, List.any_eq_false, Bool.not_eq_true,
      Option.isSome_eq_false_iff, Option.isNone_iff_eq_none]
  rw [others, List.any_append, List.any_append, List.any_cons, List.any_cons]
  rw [UInt32.le_iff_toNat_le, UInt32.lt_iff_toNat_lt] at short whole
  simp only [UInt32.le_iff_toNat_le, UInt32.lt_iff_toNat_lt]
  cases before.any fun region => (lmbHolds addr region).isSome with
  | true => simp
  | false =>
    cases after.any fun region => (lmbHolds addr region).isSome with
    | true => simp
    | false =>
      simp only [Bool.false_or, Bool.or_false, ne_eq, Bool.eq_iff_iff, short, whole]
      simp only [and_true]
      omega

/-- In every state that calls lead to, a free that fails leaves the reserved
addresses as they were, except where it cuts a region of a full table in two. -/
theorem failing_free_keeps_iff {start lmb : Lmb} {calls : List LmbCall}
    (slots : start.reserved.region.length = MAX_LMB_REGIONS + 1)
    (run : Run LmbCall.Returns (lmbInit start) calls lmb) (base size : UInt32) :
    (∀ ret next, lmbFree lmb base size = .ok (ret, next) → ret < 0 →
        ∀ addr, lmbIsReserved next addr = lmbIsReserved lmb addr) ↔
      ¬ LosesCut lmb.reserved.regions base size := by
  have lists := (LmbCall.Returns.run_shaped slots run).lists
  constructor
  · intro keeps loses
    obtain ⟨before, found, after, shape, refused, addr, lost⟩ := loses
    rw [shape] at lists
    obtain ⟨next, freed, shortened⟩ := lmbFreeRegion_refused lists refused
    have returns : lmbFree lmb base size = .ok (-1, { lmb with reserved := next }) := by
      rw [lmbFree, freed]
      rfl
    have same := keeps (-1) _ returns (by decide) addr
    rw [lmbIsReserved_lists lists,
      @lmbIsReserved_lists _ { lmb with reserved := next } shortened, Except.ok.injEq] at same
    exact (shortened_differs_iff refused).mpr lost same
  · intro keeps ret next freed fails addr
    rcases lmbFreeRegion_fails lists (lmbFree_eq_ok freed) fails
      with same | ⟨before, found, after, shape, refused, shortened⟩
    · rw [lmbIsReserved, lmbIsReserved, same]
    · by_contra changed
      rw [shape] at lists
      rw [lmbIsReserved_lists lists, lmbIsReserved_lists shortened, Except.ok.injEq] at changed
      exact keeps ⟨before, found, after, shape, refused, addr,
        (shortened_differs_iff refused).mp changed⟩

def spacedRegion (index : Nat) : LmbProperty := ⟨.ofNat (0x1000 + 0x200 * index), 0x100⟩

def spacedLmb (count : Nat) : Lmb :=
  ⟨lmbTable 1 [], lmbTable (.ofNat (max 1 count)) ((List.range count).map spacedRegion)⟩

theorem lmbReserve_spaced :
    ∀ count < MAX_LMB_REGIONS, lmbReserve (spacedLmb count) (spacedRegion count).base 0x100 =
      .ok (0, spacedLmb (count + 1)) := by
  decide +kernel

theorem spacedLmb_reached (fits : count ≤ MAX_LMB_REGIONS) : Run LmbCall.Returns (lmbInit zeroLmb)
      ((List.range count).map fun index => .reserve (spacedRegion index).base 0x100)
      (spacedLmb count) := by
  induction count with
  | zero =>
    have start : lmbInit zeroLmb = spacedLmb 0 := by decide +kernel
    rw [start]
    exact .nil _
  | succ count induction =>
    rw [List.range_succ, List.map_append]
    apply (induction (Nat.le_of_succ_le fits)).append
    exact .cons ⟨0, lmbReserve_spaced count fits⟩ (.nil _)

theorem failing_free_keeps_iff_unreserved :
    (∀ ret next, lmbFree (spacedLmb 8) 0x1140 0x10 = .ok (ret, next) → ret < 0 →
        ∀ addr, lmbIsReserved next addr = lmbIsReserved (spacedLmb 8) addr) ↔
      ¬ LosesCut (spacedLmb 8).reserved.regions 0x1140 0x10 :=
  failing_free_keeps_iff (by decide) (spacedLmb_reached (Nat.le_refl _)) 0x1140 0x10

/-- With eight regions, freeing bytes inside the first one fails and leaves the
rest of that region unreserved. -/
theorem failing_free_loses_tail : ∃ next, Run LmbCall.Returns (lmbInit zeroLmb)
        ((List.range 8).map fun index => .reserve (spacedRegion index).base 0x100)
        (spacedLmb 8) ∧
      lmbFree (spacedLmb 8) 0x1040 0x10 = .ok (-1, next) ∧
      lmbIsReserved (spacedLmb 8) 0x1080 = .ok true ∧ lmbIsReserved next 0x1080 = .ok false := by
  refine ⟨⟨lmbTable 1 [], lmbTable 8 (⟨0x1000, 0x40⟩ ::
    ((List.range 8).map spacedRegion).tail)⟩, spacedLmb_reached (Nat.le_refl _), ?_, ?_, ?_⟩
  · decide +kernel
  · decide +kernel
  · decide +kernel

end UBootV210.Library
