import UBootV210.Library.LmbTable

/-! # Adding a region

Reserving the rounded-up size of an allocation can make regions overlap. What the
additions keep nevertheless is that a region starts below the ends of all regions
behind it, and with it no reserved address is lost. -/

namespace UBootV210.Library

open CheckedMemory Intervals

variable {region new found grown : LmbProperty}

namespace LmbProperty

def first (region : LmbProperty) : Nat := region.base.toNat

def stop (region : LmbProperty) : Nat := region.base.toNat + region.size.toNat

structure Proper (region : LmbProperty) : Prop where
  nonempty : 0 < region.size.toNat
  inside : region.stop < 2 ^ 32

instance (region : LmbProperty) : Decidable region.Proper :=
  decidable_of_iff (0 < region.size.toNat ∧ region.stop < 2 ^ 32)
    ⟨fun proper => ⟨proper.1, proper.2⟩, fun proper => ⟨proper.nonempty, proper.inside⟩⟩

theorem Proper.lt (proper : region.Proper) : region.first < region.stop := by
  have nonempty := proper.nonempty
  simp only [first, stop]
  omega

theorem toNat_end (inside : region.stop < 2 ^ 32) :
    (region.base + region.size).toNat = region.stop := Nat.mod_eq_of_lt inside

theorem Proper.of_lt (lt : region.first < region.stop) (inside : region.stop < 2 ^ 32) :
    region.Proper := by
  refine ⟨?_, inside⟩
  simp only [first, stop] at lt
  omega

theorem stop_joined {next : LmbProperty} (nextInside : next.stop < 2 ^ 32)
    (touches : next.first = region.stop) :
    ({ region with size := region.size + next.size } : LmbProperty).stop = next.stop := by
  simp only [first, stop] at nextInside touches ⊢
  rw [UInt32.toNat_add]
  omega

end LmbProperty

abbrev Reserved (live : List LmbProperty) (address : Nat) : Prop :=
  Covers LmbProperty.first LmbProperty.stop live address

/-! ## What an addition does -/

theorem lmbTouch_spec (base size : UInt32) (region : LmbProperty) :
    (lmbTouch base size region = some .same → region = ⟨base, size⟩) ∧
      (lmbTouch base size region = some .above → region.base = base + size) ∧
      (lmbTouch base size region = some .below → base = region.base + region.size) ∧
      (lmbTouch base size region = none → region ≠ ⟨base, size⟩ ∧ region.base ≠ base + size ∧
        base ≠ region.base + region.size) := by
  obtain ⟨first, length⟩ := region
  simp only [lmbTouch, lmbAddrsAdjacent]
  split_ifs <;> simp_all

def LmbGrown (new found grown : LmbProperty) : Prop :=
  lmbTouch new.base new.size found = some .above ∧
      grown = ⟨found.base - new.size, found.size + new.size⟩ ∨
    lmbTouch new.base new.size found = some .below ∧
      grown = { found with size := found.size + new.size }

inductive LmbAdded (rgn : LmbRegion) (live : List LmbProperty) (new : LmbProperty) :
    Int → LmbRegion → Prop
  | dummy {first : LmbProperty} {next : LmbRegion} :
      live = [first] → first.size = 0 → next.Lists [new] → LmbAdded rgn live new 0 next
  | same : new ∈ live → LmbAdded rgn live new 0 rgn
  | grown {before after : List LmbProperty} {found grown : LmbProperty} {next : LmbRegion} :
      live = before ++ found :: after →
      (∀ region ∈ before, lmbTouch new.base new.size region = none) → LmbGrown new found grown →
      next.Lists (before ++ (joinNext grown after).2) →
      LmbAdded rgn live new (1 + (joinNext grown after).1) next
  | full :
      (∀ region ∈ live, lmbTouch new.base new.size region = none) →
      MAX_LMB_REGIONS ≤ live.length → LmbAdded rgn live new (-1) rgn
  | inserted {next : LmbRegion} :
      (∀ region ∈ live, lmbTouch new.base new.size region = none) →
      live.length < MAX_LMB_REGIONS → lmbInsert rgn new.base new.size = .ok next →
      LmbAdded rgn live new 0 next

theorem joinNext_nonneg (region : LmbProperty) (after : List LmbProperty) :
    0 ≤ (joinNext region after).1 := by
  cases after with
  | nil => exact Int.le_refl 0
  | cons next after =>
    rw [joinNext]
    split
    · exact Int.zero_le_ofNat 1
    · exact Int.le_refl 0

theorem joinNext_ne_nil : (joinNext region after).2 ≠ [] := by
  cases after with
  | nil => simp [joinNext]
  | cons next after =>
    rw [joinNext]
    split <;> simp

variable {rgn next : LmbRegion} {live before after : List LmbProperty} {ret : Int}

theorem LmbRegion.Lists.added (lists : rgn.Lists live) (nonempty : live ≠ [])
    (added : lmbAddRegion rgn new.base new.size = .ok (ret, next)) :
    LmbAdded rgn live new ret next := by
  rw [lmbAddRegion, Exec.bind_eq_ok_iff] at added
  obtain ⟨first, loaded, added⟩ := added
  split at added
  case isTrue dummy =>
    have length : live.length = 1 := by
      rw [← lists.cnt, dummy.1]
      rfl
    obtain ⟨only, rfl⟩ := List.length_eq_one_iff.mp length
    have only' := @LmbRegion.Lists.load rgn [] [] only lists
    rw [List.length_nil, loaded] at only'
    cases only'
    obtain ⟨slots, stored, replaced⟩ := @LmbRegion.Lists.store rgn [] [] first lists new
    rw [List.length_nil] at stored
    rw [stored] at added
    cases added
    exact .dummy rfl dummy.2 replaced
  case isFalse =>
    rw [lists.search, Exec.ok_bind] at added
    cases found : firstHit (lmbTouch new.base new.size) 0 live with
    | none =>
      rw [found] at added
      have missed := (firstHit_eq_none_iff ..).mp found
      have stays : lmbJoinNext rgn rgn.cnt.toNat = .ok (0, rgn) := by
        rw [lmbJoinNext, if_neg (lists.not_cnt_lt_cnt_sub_one nonempty)]
        rfl
      simp only [stays, Exec.ok_bind, ne_eq, not_true_eq_false, if_false] at added
      split at added
      case isTrue full =>
        cases added
        exact .full missed (lists.cnt ▸ full)
      case isFalse room =>
        rw [Exec.bind_eq_ok_iff] at added
        obtain ⟨grown, inserted, returned⟩ := added
        cases returned
        exact .inserted missed (lists.cnt ▸ Nat.not_le.mp room) inserted
    | some hit =>
      obtain ⟨i, region, touch⟩ := hit
      rw [found] at added
      obtain ⟨before, after, rfl, index, touches, passed⟩ := (firstHit_eq_some_iff ..).mp found
      rw [Nat.zero_add] at index
      subst index
      have joins (grown : LmbProperty) : ∃ slots joined,
          CheckedMemory.store rgn.region before.length grown = .ok slots ∧
          lmbJoinNext { rgn with region := slots } before.length =
            .ok ((Library.joinNext grown after).1, joined) ∧
          joined.Lists (before ++ (Library.joinNext grown after).2) := by
        obtain ⟨slots, stored, replaced⟩ := lists.store grown
        obtain ⟨joined, joins, listed⟩ := replaced.joinNext
        exact ⟨slots, joined, stored, joins, listed⟩
      cases touch with
      | same =>
        cases added
        have same := (lmbTouch_spec new.base new.size region).1 touches
        exact .same (by simp [same])
      | above =>
        obtain ⟨slots, joined, stored, joins, listed⟩ :=
          joins ⟨region.base - new.size, region.size + new.size⟩
        simp only [stored, joins, Exec.ok_bind] at added
        cases added
        exact .grown rfl passed (.inl ⟨touches, rfl⟩) listed
      | below =>
        obtain ⟨slots, joined, stored, joins, listed⟩ :=
          joins { region with size := region.size + new.size }
        simp only [stored, joins, Exec.ok_bind] at added
        cases added
        exact .grown rfl passed (.inr ⟨touches, rfl⟩) listed

theorem LmbAdded.refused (added : LmbAdded rgn live new ret next) (fails : ret < 0) :
    next = rgn ∧ (∀ region ∈ live, lmbTouch new.base new.size region = none) ∧
      MAX_LMB_REGIONS ≤ live.length := by
  cases added with
  | dummy _ _ _ => exact absurd fails (by decide)
  | same _ => exact absurd fails (by decide)
  | @grown _ after _ grown _ _ _ _ _ =>
    have nonnegative := joinNext_nonneg grown after
    omega
  | full untouched full => exact ⟨rfl, untouched, full⟩
  | inserted _ _ _ => exact absurd fails (by decide)

theorem LmbRegion.Lists.add_first {base size : UInt32} (lists : rgn.Lists [⟨0, 0⟩]) :
    ∃ next, lmbAddRegion rgn base size = .ok (0, next) ∧ next.Lists [⟨base, size⟩] := by
  have single : rgn.cnt = 1 := UInt32.toNat_inj.mp lists.cnt
  obtain ⟨slots, stored, listed⟩ := @LmbRegion.Lists.store rgn [] [] _ lists ⟨base, size⟩
  have loaded := @LmbRegion.Lists.load rgn [] [] _ lists
  rw [List.length_nil] at loaded stored
  refine ⟨{ rgn with region := slots }, ?_, listed⟩
  simp only [lmbAddRegion, loaded, single, and_self, if_true, stored, bind, Except.bind, pure,
    Except.pure]

theorem LmbGrown.joins (grows : LmbGrown new found grown) (inside : new.stop < 2 ^ 32)
    (foundInside : found.stop < 2 ^ 32) :
    found.first = new.stop ∧ grown.first = new.first ∧ grown.stop = found.stop ∨
      found.stop = new.first ∧ grown.first = found.first ∧ grown.stop = new.stop := by
  obtain ⟨_, above, below, _⟩ := lmbTouch_spec new.base new.size found
  rcases grows with ⟨touches, rfl⟩ | ⟨touches, rfl⟩
  · have touching : found.first = new.stop := by
      rw [LmbProperty.first, above touches, LmbProperty.toNat_end inside]
    have stop := LmbProperty.stop_joined foundInside touching
    rw [above touches, UInt32.add_sub_cancel, UInt32.add_comm found.size]
    exact .inl ⟨touching, rfl, stop⟩
  · have touching : new.first = found.stop := by
      rw [LmbProperty.first, below touches, LmbProperty.toNat_end foundInside]
    exact .inr ⟨touching.symm, rfl, LmbProperty.stop_joined inside touching⟩

theorem not_adjacent (untouched : lmbTouch new.base new.size region = none)
    (inside : new.stop < 2 ^ 32) (regionInside : region.stop < 2 ^ 32) :
    region.stop ≠ new.first ∧ region.first ≠ new.stop := by
  obtain ⟨_, above, below⟩ := (lmbTouch_spec new.base new.size region).2.2.2 untouched
  rw [ne_eq, ← UInt32.toNat_inj, LmbProperty.toNat_end inside] at above
  rw [ne_eq, ← UInt32.toNat_inj, LmbProperty.toNat_end regionInside] at below
  exact ⟨Ne.symm below, above⟩

theorem lmbAddrsAdjacent_ne_zero_iff {next : LmbProperty} (inside : region.stop < 2 ^ 32)
    (nextInside : next.stop < 2 ^ 32) :
    lmbAddrsAdjacent region.base region.size next.base next.size ≠ 0 ↔
      next.first = region.stop ∨ region.first = next.stop := by
  rw [lmbAddrsAdjacent, ← LmbProperty.toNat_end inside, ← LmbProperty.toNat_end nextInside,
    LmbProperty.first, LmbProperty.first, UInt32.toNat_inj, UInt32.toNat_inj]
  split_ifs <;> simp_all

/-! ## Staggered tables -/

structure Staggered (live : List LmbProperty) : Prop where
  proper : ∀ region ∈ live, region.Proper
  ordered : live.Pairwise fun left right => left.first < right.stop

theorem staggered_cut : Staggered (before ++ region :: after) ↔ Staggered (before ++ after) ∧
      region.Proper ∧ (∀ left ∈ before, left.first < region.stop) ∧
        ∀ right ∈ after, region.first < right.stop := by
  constructor
  · rintro ⟨proper, ordered⟩
    obtain ⟨ordered, below, above⟩ := pairwise_cut.mp ordered
    exact ⟨⟨fun other member => proper other (by grind), ordered⟩, proper region (by simp), below,
      above⟩
  · rintro ⟨⟨others, ordered⟩, proper, below, above⟩
    exact ⟨by grind, pairwise_cut.mpr ⟨ordered, below, above⟩⟩

namespace Staggered

theorem joinNext (staggered : Staggered (before ++ region :: after)) :
    Staggered (before ++ (Library.joinNext region after).2) ∧
      ∀ address, Reserved (before ++ (Library.joinNext region after).2) address ↔
        Reserved (before ++ region :: after) address := by
  cases after with
  | nil => exact ⟨staggered, fun _ => Iff.rfl⟩
  | cons next after =>
    rw [Library.joinNext]
    split
    case isFalse => exact ⟨staggered, fun _ => Iff.rfl⟩
    case isTrue adjacent =>
      obtain ⟨others, proper, below, above⟩ := staggered_cut.mp staggered
      obtain ⟨others, nextProper, nextBelow, nextAbove⟩ := staggered_cut.mp others
      have nextLt := nextProper.lt
      have regionLt := proper.lt
      have ordered := above next List.mem_cons_self
      have touches : next.first = region.stop :=
        ((lmbAddrsAdjacent_ne_zero_iff proper.inside nextProper.inside).mp adjacent).resolve_right
          ordered.ne
      have stop := LmbProperty.stop_joined nextProper.inside touches
      refine ⟨staggered_cut.mpr ⟨others, .of_lt ?_ (stop ▸ nextProper.inside), ?_, ?_⟩, ?_⟩
      · rw [stop]
        exact ordered
      · rw [stop]
        exact nextBelow
      · exact fun right member => above right (List.mem_cons_of_mem _ member)
      · intro address
        have split : region.first ≤ address ∧ address < next.stop ↔
            (region.first ≤ address ∧ address < region.stop) ∨
              next.first ≤ address ∧ address < next.stop := by
          omega
        have first : ({ region with size := region.size + next.size } : LmbProperty).first =
            region.first := rfl
        simp only [covers_append, covers_cons, stop, first, split, or_assoc]

/-- A base that no region has divides the table: the regions in front end at or
below it, and the others start above it. -/
theorem cut (staggered : Staggered live)
    (clear : ∀ region ∈ live, region.stop ≤ base ∨ base < region.first) :
    ∃ before after, live = before ++ after ∧ (∀ region ∈ before, region.stop ≤ base) ∧
      ∀ region ∈ after, base < region.first := by
  induction live with
  | nil => exact ⟨[], [], rfl, by simp, by simp⟩
  | cons first live induction =>
    have shape : Staggered ([] ++ first :: live) := staggered
    obtain ⟨rest, _, _, behind⟩ := staggered_cut.mp shape
    rcases clear first List.mem_cons_self with under | above
    · obtain ⟨before, after, rfl, lower, upper⟩ := induction rest fun region member =>
        clear region (List.mem_cons_of_mem _ member)
      exact ⟨first :: before, after, rfl, List.forall_mem_cons.mpr ⟨under, lower⟩, upper⟩
    · refine ⟨[], first :: live, rfl, by simp, List.forall_mem_cons.mpr ⟨above, ?_⟩⟩
      intro region member
      have ordered := behind region member
      exact (clear region (List.mem_cons_of_mem _ member)).resolve_left (by omega)

end Staggered

/-- The regions are proper and sorted, with a gap between any two. -/
structure Apart (live : List LmbProperty) : Prop where
  proper : ∀ region ∈ live, region.Proper
  separated : Separated LmbProperty.first LmbProperty.stop live

theorem apart_cut : Apart (before ++ region :: after) ↔ Apart (before ++ after) ∧ region.Proper ∧
      (∀ left ∈ before, left.stop < region.first) ∧ ∀ right ∈ after, region.stop < right.first := by
  constructor
  · rintro ⟨proper, separated⟩
    obtain ⟨separated, below, above⟩ := separated_cut.mp separated
    exact ⟨⟨fun other member => proper other (by grind), separated⟩, proper region (by simp), below,
      above⟩
  · rintro ⟨⟨others, separated⟩, proper, below, above⟩
    exact ⟨by grind, separated_cut.mpr ⟨separated, below, above⟩⟩

theorem Apart.staggered (apart : Apart live) : Staggered live := by
  refine ⟨apart.proper, apart.separated.imp_of_mem ?_⟩
  intro left right leftMember rightMember gap
  exact ((apart.proper left leftMember).lt.trans gap).trans (apart.proper right rightMember).lt

theorem joinNext_apart (apart : Apart (before ++ after)) (proper : region.Proper)
    (below : ∀ left ∈ before, left.stop < region.first)
    (above : ∀ right ∈ after, region.stop ≤ right.first) :
    Apart (before ++ (joinNext region after).2) := by
  cases after with
  | nil => exact apart_cut.mpr ⟨apart, proper, below, by simp⟩
  | cons next rest =>
    obtain ⟨others, nextProper, _, nextAbove⟩ := apart_cut.mp apart
    have nextLt := nextProper.lt
    have regionLt := proper.lt
    have upper := above next List.mem_cons_self
    have joins := @lmbAddrsAdjacent_ne_zero_iff region next proper.inside nextProper.inside
    rw [joinNext]
    split
    case isTrue adjacent =>
      have touches : next.first = region.stop := (joins.mp adjacent).resolve_right (by omega)
      have stop := LmbProperty.stop_joined nextProper.inside touches
      refine apart_cut.mpr ⟨others, .of_lt ?_ (stop ▸ nextProper.inside), below, ?_⟩
      · rw [stop]
        change region.first < _
        omega
      · rw [stop]
        exact nextAbove
    case isFalse distant =>
      have gap : region.stop < next.first :=
        Nat.lt_of_le_of_ne upper fun touches => distant (joins.mpr (.inl touches.symm))
      refine apart_cut.mpr ⟨apart, proper, below, List.forall_mem_cons.mpr ⟨gap, ?_⟩⟩
      exact fun right member => (gap.trans nextLt).trans (nextAbove right member)

/-! ## The table after an addition -/

abbrev MeetsNone (live : List LmbProperty) (new : LmbProperty) : Prop :=
  ∀ region ∈ live, region.stop ≤ new.first ∨ new.stop ≤ region.first

theorem LmbRegion.Lists.inserted (lists : rgn.Lists live) (nonempty : live ≠ [])
    (staggered : Staggered live)
    (clear : ∀ region ∈ live, region.stop ≤ new.first ∨ new.first < region.first)
    (room : live.length < MAX_LMB_REGIONS) (stored : lmbInsert rgn new.base new.size = .ok next) :
    ∃ before after, live = before ++ after ∧ (∀ region ∈ before, region.stop ≤ new.first) ∧
      (∀ region ∈ after, new.first < region.first) ∧ next.Lists (before ++ new :: after) := by
  obtain ⟨before, after, rfl, lower, upper⟩ := staggered.cut clear
  have below : ∀ region ∈ before, ¬ new.base < region.base := by
    intro region member above
    have ends := lower region member
    have lt := (staggered.proper region (by simp [member])).lt
    have start : new.first < region.first := UInt32.lt_iff_toNat_lt.mp above
    omega
  obtain ⟨grown, regions, inserted, listed, placed⟩ := lists.insert new.size room
    (fun region last => below region (List.mem_of_mem_getLast? last))
    fun region member => UInt32.lt_iff_toNat_lt.mpr (upper region member)
  rw [stored] at inserted
  cases inserted
  exact ⟨before, after, rfl, lower, upper, (placed nonempty).2 below ▸ listed⟩

/-- An addition that succeeds adds exactly its interval, when the interval is a
region already or its base is in no region. It keeps the regions apart, when the
interval is a region already or meets none of them. -/
theorem LmbAdded.adds (added : LmbAdded rgn live new ret next) (lists : rgn.Lists live)
    (nonempty : live ≠ []) (staggered : Staggered live) (proper : new.Proper)
    (fits : new ∈ live ∨ ∀ region ∈ live, region.stop ≤ new.first ∨ new.first < region.first)
    (succeeds : 0 ≤ ret) :
    ∃ after, next.Lists after ∧ after ≠ [] ∧ Staggered after ∧
      (∀ address, Reserved after address ↔ Reserved live address ∨
        new.first ≤ address ∧ address < new.stop) ∧
      (Apart live → new ∈ live ∨ MeetsNone live new → Apart after) := by
  have newLt := proper.lt
  cases added with
  | @dummy first _ shape empty _ =>
    have positive := (staggered.proper first (by simp [shape])).nonempty
    rw [empty] at positive
    exact absurd positive (Nat.lt_irrefl 0)
  | same member =>
    refine ⟨live, lists, nonempty, staggered, fun address => ?_, fun apart _ => apart⟩
    exact ⟨.inl, fun holds => holds.elim id fun inside => ⟨_, member, inside⟩⟩
  | @grown before after found grown _ shape passed grows listed =>
    subst shape
    obtain ⟨others, foundProper, below, above⟩ := staggered_cut.mp staggered
    have foundLt := foundProper.lt
    have joins := grows.joins proper.inside foundProper.inside
    have newInside := proper.inside
    have foundInside := foundProper.inside
    have grownProper : grown.Proper := .of_lt (by omega) (by omega)
    have grownStaggered : Staggered (before ++ grown :: after) := by
      refine staggered_cut.mpr ⟨others, grownProper, ?_, ?_⟩
      · intro left member
        have ordered := below left member
        omega
      · intro right member
        have ordered := above right member
        omega
    refine ⟨_, listed, ?_, grownStaggered.joinNext.1, fun address => ?_, fun apart fits => ?_⟩
    · exact List.append_ne_nil_of_right_ne_nil _ joinNext_ne_nil
    · rw [grownStaggered.joinNext.2]
      apply covers_replace
      omega
    · obtain ⟨others, _, below, above⟩ := apart_cut.mp apart
      -- Two regions of the table do not touch.
      have disjoint := fits.resolve_left fun present => by
        rcases joins with ⟨touches, _⟩ | ⟨touches, _⟩
        · exact apart.separated.not_covers_stop present newLt ⟨found, by simp, by omega⟩
        · have member : found ∈ before ++ found :: after := by simp
          exact apart.separated.not_covers_stop member foundLt ⟨new, present, by omega⟩
      apply joinNext_apart others grownProper
      · intro left member
        have gap := below left member
        have leftProper := others.proper left (by simp [member])
        have leftLt := leftProper.lt
        have distant := not_adjacent (passed left member) newInside leftProper.inside
        have clear := disjoint left (by simp [member])
        omega
      · intro right member
        have gap := above right member
        have rightLt := (others.proper right (by simp [member])).lt
        have clear := disjoint right (by simp [member])
        omega
  | full _ _ => exact absurd succeeds (by decide)
  | inserted untouched room stored =>
    have absent : new ∉ live := fun member =>
      ((lmbTouch_spec new.base new.size new).2.2.2 (untouched new member)).1 rfl
    obtain ⟨before, after, rfl, lower, upper, listed⟩ :=
      lists.inserted nonempty staggered (fits.resolve_left absent) room stored
    refine ⟨_, listed, by simp, staggered_cut.mpr ⟨staggered, proper, ?_, ?_⟩,
      fun address => covers_insert, fun apart fits => ?_⟩
    · intro left member
      have ends := lower left member
      have lt := (staggered.proper left (by simp [member])).lt
      omega
    · intro right member
      have lt := (staggered.proper right (by simp [member])).lt
      exact (upper right member).trans lt
    · have distant (region) (member : region ∈ before ++ after) :=
        not_adjacent (untouched region member) proper.inside (apart.proper region member).inside
      refine apart_cut.mpr ⟨apart, proper, fun left member => ?_, fun right member => ?_⟩
      · have gap := distant left (by simp [member])
        have ends := lower left member
        omega
      · have gap := distant right (by simp [member])
        have starts := upper right member
        have rightLt := (apart.proper right (by simp [member])).lt
        have clear := fits.resolve_left absent right (by simp [member])
        omega

theorem LmbAdded.adds_apart (added : LmbAdded rgn live new ret next) (lists : rgn.Lists live)
    (nonempty : live ≠ []) (apart : Apart live) (proper : new.Proper)
    (fits : new ∈ live ∨ MeetsNone live new) (succeeds : 0 ≤ ret) :
    ∃ after, next.Lists after ∧ Apart after ∧ ∀ address, Reserved after address ↔
      Reserved live address ∨ new.first ≤ address ∧ address < new.stop := by
  obtain ⟨after, listed, _, _, covers, kept⟩ := added.adds lists nonempty apart.staggered proper
    (fits.imp_right fun disjoint region member =>
      (disjoint region member).imp_right proper.lt.trans_le) succeeds
  exact ⟨after, listed, kept apart fits, covers⟩

end UBootV210.Library
