import UBootV210.Library.LmbAlloc

/-! # Sequences of allocations

The addresses that allocations returned stay in the reserved table. -/

namespace UBootV210.Library

open CheckedMemory Intervals

/-! ## What a sequence of calls keeps -/

/-- The reserved table as it is before the first reservation, or staggered and with
the addresses of some intervals in it. -/
inductive LmbRegion.Keeps (rgn : LmbRegion) (taken : List LmbProperty) : Prop
  | initial : rgn.Lists [⟨0, 0⟩] → taken = [] → LmbRegion.Keeps rgn taken
  | reserved {live : List LmbProperty} : rgn.Lists live → live ≠ [] → Staggered live →
      (∀ region ∈ taken, ∀ address ∈ region.addresses, Reserved live address) →
      LmbRegion.Keeps rgn taken

section

variable {rgn next : LmbRegion} {taken : List LmbProperty} {base size : UInt32} {ret : Int}

section

variable (keeps : rgn.Keeps taken)
include keeps

theorem LmbRegion.Keeps.lists : ∃ live, rgn.Lists live ∧ live ≠ [] := by
  cases keeps with
  | initial lists _ => exact ⟨_, lists, by simp⟩
  | reserved lists nonempty _ _ => exact ⟨_, lists, nonempty⟩

theorem LmbRegion.Keeps.shaped : rgn.Shaped := by
  obtain ⟨_, lists, _⟩ := keeps.lists
  exact lists.shaped

theorem LmbRegion.Keeps.wrapFree : ∀ region ∈ rgn.regions, region.stop < 2 ^ 32 := by
  cases keeps with
  | initial lists _ =>
    rw [lists.regions_eq]
    decide
  | reserved lists _ staggered _ =>
    rw [lists.regions_eq]
    exact fun region member => (staggered.proper region member).inside

theorem LmbRegion.Keeps.add (proper : (⟨base, size⟩ : LmbProperty).Proper)
    (fits : ⟨base, size⟩ ∈ rgn.regions ∨
      ∀ region ∈ rgn.regions, region.stop ≤ base.toNat ∨ base.toNat < region.first)
    (added : lmbAddRegion rgn base size = .ok (ret, next)) (succeeds : 0 ≤ ret) :
    next.Keeps (⟨base, size⟩ :: taken) := by
  cases keeps with
  | initial lists none =>
    obtain ⟨single, added', listed⟩ := @LmbRegion.Lists.add_first rgn base size lists
    rw [added] at added'
    cases added'
    apply LmbRegion.Keeps.reserved listed (by simp)
    · exact ⟨by simpa using proper, List.pairwise_singleton _ _⟩
    · rw [none]
      intro region member address inside
      exact ⟨region, member, inside⟩
  | @reserved live lists nonempty staggered covered =>
    rw [lists.regions_eq] at fits
    have addition : LmbAdded rgn live ⟨base, size⟩ ret next := lists.added nonempty added
    obtain ⟨after, listed, nonempty', staggered', same, _⟩ :=
      addition.adds lists nonempty staggered proper fits succeeds
    apply LmbRegion.Keeps.reserved listed nonempty' staggered'
    intro region member address inside
    rw [same]
    rcases List.mem_cons.mp member with equal | member
    · rw [equal] at inside
      exact .inr inside
    · exact .inl (covered region member address inside)

theorem LmbRegion.Keeps.refused (added : lmbAddRegion rgn base size = .ok (ret, next))
    (fails : ret < 0) : next.Keeps taken := by
  obtain ⟨_, lists, nonempty⟩ := keeps.lists
  have addition : LmbAdded rgn _ ⟨base, size⟩ ret next := lists.added nonempty added
  obtain ⟨rfl, _⟩ := addition.refused fails
  exact keeps

theorem LmbRegion.Keeps.shrink (nonempty : taken ≠ [])
    (part : ∀ region ∈ fewer, ∃ whole ∈ taken, region.addresses ⊆ whole.addresses) :
    rgn.Keeps fewer := by
  cases keeps with
  | initial lists none => exact absurd none nonempty
  | reserved lists nonempty staggered covered =>
    apply LmbRegion.Keeps.reserved lists nonempty staggered
    intro region member address inside
    obtain ⟨whole, taken, sub⟩ := part region member
    exact covered whole taken address (sub inside)

end

end

/-- What a call needs to keep the addresses of earlier allocations: a reserved
interval is a region already or meets no region, and an allocation is not larger
than its bound for the highest address. Nothing is freed, and no memory region reaches
the end of the address space when its end is rounded up. -/
def LmbCall.Clear (lmb : Lmb) : LmbCall → Prop
  | .add _ _ => True
  | .reserve base size => (⟨base, size⟩ : LmbProperty).Proper ∧
      (⟨base, size⟩ ∈ lmb.reserved.regions ∨ ∀ region ∈ lmb.reserved.regions,
        region.stop ≤ base.toNat ∨ (⟨base, size⟩ : LmbProperty).stop ≤ region.first)
  | .free _ _ => False
  | .allocBase size align maxAddr _ => 1 ≤ size ∧ (∃ width, align.toNat = 2 ^ width) ∧
      (maxAddr = 0 ∨ size ≤ maxAddr) ∧
      ∀ region ∈ lmb.memory.regions, region.stop + align.toNat ≤ 2 ^ 32

def ClearLmbStep (lmb : Lmb) (call : LmbCall) (next : Lmb) : Prop :=
  call.Returns lmb next ∧ call.Clear lmb

def LmbCall.allocation : LmbCall → Option LmbProperty
  | .allocBase size _ _ result => if result = 0 then none else some ⟨result, size⟩
  | _ => none

def allocations (calls : List LmbCall) : List LmbProperty := calls.filterMap LmbCall.allocation

variable {lmb next : Lmb} {call : LmbCall} {taken : List LmbProperty}

theorem ClearLmbStep.keeps (step : ClearLmbStep lmb call next) (keeps : lmb.reserved.Keeps taken) :
    next.reserved.Keeps (call.allocation.toList ++ taken) := by
  obtain ⟨returns, clear⟩ := step
  cases call with
  | add base size =>
    obtain ⟨ret, added⟩ := returns
    rw [lmbAdd_reserved added]
    exact keeps
  | reserve base size =>
    obtain ⟨ret, reserved⟩ := returns
    obtain ⟨proper, fits⟩ := clear
    have added := lmbReserve_eq_ok reserved
    by_cases fails : ret < 0
    · exact keeps.refused added fails
    · have newLt := proper.lt
      have fits' : ⟨base, size⟩ ∈ lmb.reserved.regions ∨ ∀ region ∈ lmb.reserved.regions,
          region.stop ≤ base.toNat ∨ base.toNat < region.first := by
        apply fits.imp_right
        intro disjoint region member
        apply (disjoint region member).imp_right
        exact newLt.trans_le
      apply (keeps.add proper fits' added (by omega)).shrink (by simp)
      intro region member
      exact ⟨region, List.mem_cons_of_mem _ member, subset_rfl⟩
  | free base size => exact clear.elim
  | allocBase size align maxAddr result =>
    obtain ⟨positive, ⟨width, power⟩, bounded, memory⟩ := clear
    by_cases none : result = 0
    · rw [LmbCall.allocation, if_pos none]
      rcases lmbAllocLoop_reserved returns with same | ⟨found, ret, added, fails⟩
      · rw [same]
        exact keeps
      · exact keeps.refused added (fails none)
    · rw [LmbCall.allocation, if_neg none]
      have wrapFree : lmb.WrapFree align := ⟨memory, keeps.wrapFree⟩
      have apart := lmbAllocBase_clear power positive keeps.shaped wrapFree returns none bounded
      obtain ⟨large, inside⟩ :=
        reserved_size power positive keeps.shaped wrapFree returns none bounded
      have nonempty : 0 < size.toNat := UInt32.le_iff_toNat_le.mp positive
      obtain ⟨_, ret, after, added, succeeds, rfl⟩ := lmbAllocLoop_returns returns none
      have kept := keeps.add ⟨nonempty.trans_le large, inside⟩ (.inr fun region member =>
        (apart region member).imp_right fun above => by
          simp only [LmbProperty.stop] at above
          omega) added succeeds
      apply kept.shrink (by simp)
      intro region member
      rcases List.mem_cons.mp member with equal | member
      · refine ⟨_, List.mem_cons_self, fun address holds => ?_⟩
        rw [equal] at holds
        obtain ⟨lower, upper⟩ := holds
        exact ⟨lower, upper.trans_le (Nat.add_le_add_left large _)⟩
      · exact ⟨region, List.mem_cons_of_mem _ member, subset_rfl⟩

theorem ClearLmbStep.disjoint (step : ClearLmbStep lmb call next) (keeps : lmb.reserved.Keeps taken)
    (returned : call.allocation = some new)
    (member : old ∈ taken) : Disjoint old.addresses new.addresses := by
  obtain ⟨returns, clear⟩ := step
  cases call with
  | add base size => cases returned
  | reserve base size => cases returned
  | free base size => cases returned
  | allocBase size align maxAddr result =>
    obtain ⟨positive, ⟨width, power⟩, bounded, memory⟩ := clear
    rw [LmbCall.allocation] at returned
    split at returned
    case isTrue => cases returned
    case isFalse found =>
      cases returned
      have wrapFree : lmb.WrapFree align := ⟨memory, keeps.wrapFree⟩
      have apart := lmbAllocBase_clear power positive keeps.shaped wrapFree returns found bounded
      cases keeps with
      | initial _ none =>
        rw [none] at member
        cases member
      | reserved lists _ _ covered =>
        rw [lists.regions_eq] at apart
        apply Set.disjoint_left.mpr
        intro address inOld inNew
        obtain ⟨region, listed, lower, upper⟩ := covered old member address inOld
        obtain ⟨newLower, newUpper⟩ := inNew
        rcases apart region listed with before | behind
        · exact absurd upper (not_lt.mpr (before.trans newLower))
        · omega

theorem ClearLmbStep.run_disjoint
    (run : Run ClearLmbStep first calls last) (keeps : first.reserved.Keeps taken)
    (apart : taken.Pairwise fun later earlier => Disjoint earlier.addresses later.addresses) :
    ((allocations calls).reverse ++ taken).Pairwise
      fun later earlier => Disjoint earlier.addresses later.addresses := by
  induction run generalizing taken with
  | nil => simpa [allocations] using apart
  | @cons first middle last call calls head _ induction =>
    have kept := ClearLmbStep.keeps head keeps
    cases returned : call.allocation with
    | none =>
      rw [returned] at kept
      rw [allocations, List.filterMap_cons_none returned]
      exact induction kept apart
    | some new =>
      rw [returned] at kept
      rw [allocations, List.filterMap_cons_some returned, List.reverse_cons, List.append_assoc]
      apply induction kept
      apply List.pairwise_cons.mpr ⟨?_, apart⟩
      intro old member
      exact ClearLmbStep.disjoint head keeps returned member

/-! ## Every reachable state -/

theorem LmbAdded.regions_ne_nil {rgn next : LmbRegion}
    (added : LmbAdded rgn rgn.regions new ret next) (shaped : rgn.Shaped)
    (nonempty : rgn.regions ≠ []) : next.regions ≠ [] := by
  cases added with
  | dummy _ _ lists =>
    rw [lists.regions_eq]
    simp
  | same _ => exact nonempty
  | grown _ _ _ lists =>
    rw [lists.regions_eq]
    exact List.append_ne_nil_of_right_ne_nil _ joinNext_ne_nil
  | full _ _ => exact nonempty
  | inserted _ room stored => exact List.ne_nil_of_mem ((shaped.insert room stored).2 nonempty)

def UnfreedLmbStep (lmb : Lmb) (call : LmbCall) (next : Lmb) : Prop :=
  call.Returns lmb next ∧ ∀ base size, call ≠ .free base size

theorem UnfreedLmbStep.listed (step : UnfreedLmbStep lmb call next)
    (listed : lmb.reserved.Shaped ∧ lmb.reserved.regions ≠ []) :
    next.reserved.Shaped ∧ next.reserved.regions ≠ [] := by
  obtain ⟨returns, unfreed⟩ := step
  obtain ⟨shaped, nonempty⟩ := listed
  refine ⟨returns.shaped shaped, ?_⟩
  rcases returns.reserved with same | ⟨base, size, ret, added⟩ | ⟨base, size, _, free, _⟩
  · exact same ▸ nonempty
  · have addition : LmbAdded lmb.reserved _ ⟨base, size⟩ ret next.reserved :=
      shaped.lists.added nonempty added
    exact addition.regions_ne_nil shaped nonempty
  · exact absurd free (unfreed base size)

/-- In every state that is reached without freeing, an allocation that returns an
address is sound exactly when its size is not above the bound for the highest
address. The results of the allocations of a run never overlap when every step of
it is clear. -/
theorem allocation_sound {start lmb : Lmb} {calls : List LmbCall}
    (slots : start.reserved.region.length = MAX_LMB_REGIONS + 1)
    (run : Run UnfreedLmbStep (lmbInit start) calls lmb) :
    (∀ size align maxAddr result next, 1 ≤ size → (∃ width, align.toNat = 2 ^ width) →
        lmb.WrapFree align → lmbAllocBase lmb size align maxAddr = .ok (result, next) →
        result ≠ 0 →
        (AllocSound lmb size align maxAddr result next ↔ maxAddr = 0 ∨ size ≤ maxAddr)) ∧
      (Run ClearLmbStep (lmbInit start) calls lmb → (allocations calls).Pairwise
        fun earlier later => Disjoint earlier.addresses later.addresses) := by
  have initial := lmbInit_lists slots
  constructor
  · have listed := run.invariant (fun step listed => UnfreedLmbStep.listed step listed)
      ⟨initial.shaped, by rw [initial.regions_eq]; simp⟩
    intro size align maxAddr result next positive power wrapFree allocated found
    obtain ⟨width, power⟩ := power
    exact lmbAllocBase_sound_iff power positive listed.1 wrapFree allocated found listed.2
  · intro clear
    have apart := ClearLmbStep.run_disjoint clear (.initial initial rfl) .nil
    rw [List.append_nil] at apart
    exact List.pairwise_reverse.mp apart

def memoryLmb (regions : List LmbProperty) : Lmb :=
  ⟨lmbTable 1 [⟨0x3000, 0x6000⟩], lmbTable (.ofNat (max 1 regions.length)) regions⟩

theorem allocation_sound_twice :
    let calls : List LmbCall := [.add 0x3000 0x6000, .allocBase 0x1800 0x1000 0 0x7000]
    let lmb := memoryLmb [⟨0x7000, 0x2000⟩]
    let next := memoryLmb [⟨0x6000, 0x3000⟩]
    Run ClearLmbStep (lmbInit zeroLmb) calls lmb ∧ AllocSound lmb 0x800 0x1000 0x9000 0x6000 next ∧
      (allocations calls).Pairwise
        fun earlier later => Disjoint earlier.addresses later.addresses := by
  intro calls lmb next
  have added : lmbAdd (lmbInit zeroLmb) 0x3000 0x6000 = .ok (0, memoryLmb []) := by
    decide +kernel
  have first : lmbAllocBase (memoryLmb []) 0x1800 0x1000 0 = .ok (0x7000, lmb) := by
    decide +kernel
  have second : lmbAllocBase lmb 0x800 0x1000 0x9000 = .ok (0x6000, next) := by
    decide +kernel
  have power : ∃ width, (0x1000 : UInt32).toNat = 2 ^ width := ⟨12, by decide⟩
  have unfreed : Run UnfreedLmbStep (lmbInit zeroLmb) calls lmb :=
    .cons ⟨⟨0, added⟩, by simp⟩ (.cons ⟨first, by simp⟩ (.nil _))
  have clear : Run ClearLmbStep (lmbInit zeroLmb) calls lmb := by
    apply Run.cons ⟨⟨0, added⟩, trivial⟩
    exact .cons ⟨first, by decide, power, .inl rfl, by decide⟩ (.nil _)
  have sound := allocation_sound (by decide) unfreed
  refine ⟨clear, ?_, sound.2 clear⟩
  exact (sound.1 _ _ _ _ _ (by decide) power ⟨by decide, by decide⟩ second (by decide)).mpr
    (.inr (by decide))

/-- An allocation that is larger than its bound is given an address outside of the
memory. And three reservations around an earlier allocation take its region out of
the table, so that the same addresses are allocated again. -/
theorem alloc_outside_and_twice :
    (∃ lmb next, Run UnfreedLmbStep (lmbInit zeroLmb) [.add 0x3000 0x6000] lmb ∧
      lmbAllocBase lmb 0x5000 0x1000 0x4000 = .ok (0xfffff000, next) ∧
      lmb.memory.regions = [⟨0x3000, 0x6000⟩]) ∧
    ∃ lmb, Run UnfreedLmbStep (lmbInit zeroLmb) [.add 0x3000 0x6000,
        .allocBase 0x6000 0x1000 0 0x3000, .reserve 0x5000 0x1000, .reserve 0x2000 0x3000,
        .reserve 0x2800 0x100, .allocBase 0x1000 0x1000 0 0x8000] lmb ∧
      lmb.memory.regions = [⟨0x3000, 0x6000⟩] := by
  have added : lmbAdd (lmbInit zeroLmb) 0x3000 0x6000 = .ok (0, memoryLmb []) := by
    decide +kernel
  constructor
  · refine ⟨memoryLmb [], memoryLmb [⟨0xfffff000, 0x5000⟩],
      .cons ⟨⟨0, added⟩, by simp⟩ (.nil _), ?_, ?_⟩
    · decide +kernel
    · decide
  · refine ⟨memoryLmb [⟨0x2800, 0x100⟩, ⟨0x2000, 0x4000⟩, ⟨0x2800, 0x100⟩, ⟨0x8000, 0x1000⟩],
      ?_, by decide⟩
    apply Run.cons ⟨⟨0, added⟩, by simp⟩
    apply @Run.cons _ _ _ _ (memoryLmb [⟨0x3000, 0x6000⟩]) _ _ _
      ⟨by change lmbAllocBase _ _ _ _ = _; decide +kernel, by simp⟩
    apply @Run.cons _ _ _ _ (memoryLmb [⟨0x3000, 0x6000⟩, ⟨0x5000, 0x1000⟩]) _ _ _
      ⟨⟨0, by decide +kernel⟩, by simp⟩
    apply @Run.cons _ _ _ _ (memoryLmb [⟨0x3000, 0x6000⟩, ⟨0x2000, 0x4000⟩]) _ _ _
      ⟨⟨1, by decide +kernel⟩, by simp⟩
    apply @Run.cons _ _ _ _ (memoryLmb [⟨0x2800, 0x100⟩, ⟨0x2000, 0x4000⟩, ⟨0x2800, 0x100⟩]) _ _ _
      ⟨⟨0, by decide +kernel⟩, by simp⟩
    exact .cons ⟨by change lmbAllocBase _ _ _ _ = _; decide +kernel, by simp⟩ (.nil _)

end UBootV210.Library
