import UBootV210.Foundation.Intervals
import UBootV210.Library.Lmb

/-! # The tables of `lmb.c` as lists

What the loops over a table do to the list of its regions. -/

namespace UBootV210.Library

open CheckedMemory

structure LmbRegion.Lists (rgn : LmbRegion) (live : List LmbProperty) : Prop where
  cnt : rgn.cnt.toNat = live.length
  slots : ∃ stale, rgn.region = live ++ stale ∧ live.length + stale.length = MAX_LMB_REGIONS + 1
  capacity : live.length ≤ MAX_LMB_REGIONS

namespace LmbRegion.Lists

variable {rgn : LmbRegion} {live before after : List LmbProperty} {region : LmbProperty}

theorem load (lists : rgn.Lists (before ++ region :: after)) :
    CheckedMemory.load rgn.region before.length = .ok region := by
  obtain ⟨stale, slots, _⟩ := lists.slots
  rw [slots, List.append_assoc, List.cons_append, load_cut]

theorem store (lists : rgn.Lists (before ++ region :: after)) (new : LmbProperty) :
    ∃ slots, CheckedMemory.store rgn.region before.length new = .ok slots ∧
      { rgn with region := slots }.Lists (before ++ new :: after) := by
  obtain ⟨stale, slots, total⟩ := lists.slots
  have capacity := lists.capacity
  have cnt := lists.cnt
  simp only [List.length_append, List.length_cons] at capacity cnt total
  refine ⟨before ++ new :: (after ++ stale), ?_, ?_, ⟨stale, by simp, ?_⟩, ?_⟩
  · rw [slots, List.append_assoc, List.cons_append, store_cut]
  · simpa using cnt
  · simpa using total
  · simpa using capacity

theorem cnt_sub_one (lists : rgn.Lists (before ++ region :: after)) :
    (rgn.cnt - 1).toNat = before.length + after.length := by
  have cnt := lists.cnt
  simp only [List.length_append, List.length_cons] at cnt
  have positive : 1 ≤ rgn.cnt := by
    change 1 ≤ rgn.cnt.toNat
    omega
  rw [UInt32.toNat_sub_of_le _ _ positive]
  change rgn.cnt.toNat - 1 = _
  omega

theorem not_cnt_lt_cnt_sub_one (lists : rgn.Lists live) (nonempty : live ≠ []) :
    ¬ rgn.cnt.toNat < (rgn.cnt - 1).toNat := by
  cases live with
  | nil => exact absurd rfl nonempty
  | cons first rest =>
    rw [@cnt_sub_one rgn [] rest first lists, lists.cnt, List.length_nil, List.length_cons]
    omega

theorem search (lists : rgn.Lists live) (test : LmbProperty → Option Result) :
    CheckedMemory.search test rgn.cnt.toNat 0 rgn.region = .ok (firstHit test 0 live) := by
  obtain ⟨stale, slots, _⟩ := lists.slots
  rw [lists.cnt, slots, search_list]

end LmbRegion.Lists

def LmbRegion.regions (rgn : LmbRegion) : List LmbProperty := rgn.region.take rgn.cnt.toNat

theorem LmbRegion.Lists.regions_eq {rgn : LmbRegion} (lists : rgn.Lists live) :
    rgn.regions = live := by
  obtain ⟨stale, slots, _⟩ := lists.slots
  rw [LmbRegion.regions, slots, lists.cnt, List.take_left]

-- The last region stays behind in its slot.
theorem lmbRemoveLoop_cut (before after stale : List LmbProperty) (removed : LmbProperty) :
    ∃ last, lmbRemoveLoop after.length before.length (before ++ removed :: (after ++ stale)) =
      .ok (before ++ (after ++ last :: stale)) := by
  induction after generalizing before removed with
  | nil => exact ⟨removed, rfl⟩
  | cons next after induction =>
    obtain ⟨last, moved⟩ := induction (before ++ [next]) next
    refine ⟨last, ?_⟩
    simp only [List.append_assoc, List.singleton_append, List.length_append,
      List.length_singleton] at moved
    simp only [List.length_cons, lmbRemoveLoop, List.cons_append, load_cut_succ, store_cut,
      bind, Except.bind]
    exact moved

variable {rgn : LmbRegion} {before after : List LmbProperty}

theorem LmbRegion.Lists.remove (lists : rgn.Lists (before ++ removed :: after)) :
    ∃ next, lmbRemoveRegion rgn before.length = .ok next ∧ next.Lists (before ++ after) := by
  obtain ⟨stale, slots, total⟩ := lists.slots
  have cnt := lists.cnt
  have capacity := lists.capacity
  simp only [List.length_append, List.length_cons] at cnt capacity total
  have less := lists.cnt_sub_one
  obtain ⟨last, looped⟩ := lmbRemoveLoop_cut before after stale removed
  have count : (rgn.cnt - 1).toNat - before.length = after.length := by omega
  refine ⟨⟨rgn.cnt - 1, before ++ (after ++ last :: stale)⟩, ?_, ?_,
    ⟨last :: stale, by simp, ?_⟩, ?_⟩
  · rw [lmbRemoveRegion, count, slots, List.append_assoc, List.cons_append, looped]
    rfl
  · simpa using less
  · simp only [List.length_append, List.length_cons]
    omega
  · simp only [List.length_append]
    omega

theorem LmbRegion.Lists.coalesce (lists : rgn.Lists (before ++ first :: second :: after)) :
    ∃ next, lmbCoalesceRegions rgn before.length (before.length + 1) = .ok next ∧
      next.Lists (before ++ { first with size := first.size + second.size } :: after) := by
  have second' : rgn.Lists ((before ++ [first]) ++ second :: after) := by simpa using lists
  have loadSecond := second'.load
  rw [List.length_append, List.length_singleton] at loadSecond
  obtain ⟨slots, stored, joined⟩ :=
    lists.store { first with size := first.size + second.size }
  have joined' : { rgn with region := slots }.Lists
      ((before ++ [{ first with size := first.size + second.size }]) ++ second :: after) := by
    simpa using joined
  obtain ⟨next, removed, listed⟩ := joined'.remove
  refine ⟨next, ?_, by simpa using listed⟩
  rw [List.length_append, List.length_singleton] at removed
  simp only [lmbCoalesceRegions, lists.load, loadSecond, stored, bind, Except.bind]
  exact removed

def joinNext (region : LmbProperty) : List LmbProperty → Int × List LmbProperty
  | [] => (0, [region])
  | next :: after =>
      if lmbAddrsAdjacent region.base region.size next.base next.size ≠ 0 then
        (1, { region with size := region.size + next.size } :: after)
      else
        (0, region :: next :: after)

theorem LmbRegion.Lists.joinNext {region : LmbProperty}
    (lists : rgn.Lists (before ++ region :: after)) :
    ∃ next, lmbJoinNext rgn before.length = .ok ((Library.joinNext region after).1, next) ∧
      next.Lists (before ++ (Library.joinNext region after).2) := by
  have less := lists.cnt_sub_one
  cases after with
  | nil =>
    refine ⟨rgn, ?_, lists⟩
    rw [lmbJoinNext, if_neg (by rw [less, List.length_nil]; omega)]
    rfl
  | cons next after =>
    have second : rgn.Lists ((before ++ [region]) ++ next :: after) := by simpa using lists
    have loadNext := second.load
    rw [List.length_append, List.length_singleton] at loadNext
    have inside : before.length < (rgn.cnt - 1).toNat := by
      rw [less, List.length_cons]
      omega
    simp only [lmbJoinNext, if_pos inside, lmbRegionsAdjacent, lists.load, loadNext, bind,
      Except.bind, pure, Except.pure, Library.joinNext]
    split
    · obtain ⟨joined, coalesced, listed⟩ := lists.coalesce
      rw [coalesced]
      exact ⟨joined, rfl, listed⟩
    · exact ⟨rgn, rfl, lists⟩

section

variable {base : UInt32} (size : UInt32)

/-- The regions above the new one move up, and the first of them also stays where it was. -/
theorem lmbShiftLoop_moves (before : List LmbProperty)
    (upper : ∀ region ∈ after, base < region.base) (slot : LmbProperty) (stale : List LmbProperty) :
    lmbShiftLoop base size (before.length + after.length) (before ++ (after ++ slot :: stale)) =
      lmbShiftLoop base size before.length (before ++ after.headD slot :: (after ++ stale)) := by
  induction after using List.reverseRecOn generalizing slot stale with
  | nil => rfl
  | append_singleton after region induction =>
    have here : base < region.base := upper region (by simp)
    have moved := induction (fun other member => upper other (by simp [member])) region
      (region :: stale)
    have loaded := load_cut (before ++ after) (slot :: stale) region
    have stored := store_cut_succ (before ++ after) stale region slot region
    have head : (after ++ [region]).headD slot = after.headD region := by
      cases after <;> rfl
    simp only [List.append_assoc, List.cons_append, List.nil_append, List.length_append]
      at loaded stored ⊢
    rw [head, List.length_singleton, ← Nat.add_assoc, lmbShiftLoop]
    simp only [loaded, bind, Except.bind, here, if_true, stored]
    exact moved

theorem lmbInsert_first
    (shifted : lmbShiftLoop base size rgn.cnt.toNat rgn.region = .ok (first :: rest)) :
    lmbInsert rgn base size =
      .ok ⟨rgn.cnt + 1, (if base < first.base then ⟨base, size⟩ else first) :: rest⟩ := by
  have loaded : load (first :: rest) 0 = .ok first := load_cut [] rest first
  have stored : store (first :: rest) 0 ⟨base, size⟩ = .ok (⟨base, size⟩ :: rest) :=
    store_cut [] rest first ⟨base, size⟩
  simp only [lmbInsert, shifted, Exec.ok_bind, loaded, stored]
  split <;> rfl

/-- The regions after an insertion. The new one is in front of those above it; a first
region above it is replaced as well, where others that are not above it follow. -/
theorem lmbInsert_slots (lower : ∀ region ∈ before.getLast?, ¬ base < region.base)
    (upper : ∀ region ∈ after, base < region.base) (counted : cnt.toNat = (before ++ after).length)
    (slot : LmbProperty) (stale : List LmbProperty) :
    ∃ regions, lmbInsert ⟨cnt, before ++ (after ++ slot :: stale)⟩ base size =
        .ok ⟨cnt + 1, regions ++ stale⟩ ∧ regions.length = (before ++ after).length + 1 ∧
      (before ++ after ≠ [] → ⟨base, size⟩ ∈ regions ∧
        ((∀ region ∈ before, ¬ base < region.base) →
          regions = before ++ ⟨base, size⟩ :: after)) := by
  have shifted := lmbShiftLoop_moves size before upper slot stale
  rw [← List.length_append, ← counted] at shifted
  cases before with
  | nil =>
    refine ⟨_ :: after, lmbInsert_first size shifted, rfl, fun nonempty => ?_⟩
    cases after with
    | nil => exact absurd rfl nonempty
    | cons first after => simp [upper first List.mem_cons_self]
  | cons first rest =>
    obtain ⟨front, last, shape⟩ : ∃ front last, first :: rest = front ++ [last] :=
      ⟨_, _, (List.dropLast_append_getLast (List.cons_ne_nil _ _)).symm⟩
    have here : ¬ base < last.base := lower last (by simp [shape])
    have placed : lmbShiftLoop base size cnt.toNat (first :: rest ++ (after ++ slot :: stale)) =
        .ok (first :: rest ++ ⟨base, size⟩ :: (after ++ stale)) := by
      rw [shifted, shape]
      simp only [List.append_assoc, List.singleton_append, List.length_append,
        List.length_singleton, lmbShiftLoop, load_cut, store_cut_succ, Exec.ok_bind, here, if_false]
    refine ⟨_ :: (rest ++ ⟨base, size⟩ :: after),
      (lmbInsert_first size placed).trans (by simp; rfl), ?_, fun _ => ⟨by simp, fun lower => ?_⟩⟩
    · simp [Nat.add_assoc]
    · simp [lower first List.mem_cons_self]

theorem LmbRegion.Lists.insert (lists : rgn.Lists (before ++ after))
    (room : (before ++ after).length < MAX_LMB_REGIONS)
    (lower : ∀ region ∈ before.getLast?, ¬ base < region.base)
    (upper : ∀ region ∈ after, base < region.base) :
    ∃ next regions, lmbInsert rgn base size = .ok next ∧ next.Lists regions ∧
      (before ++ after ≠ [] → ⟨base, size⟩ ∈ regions ∧
        ((∀ region ∈ before, ¬ base < region.base) →
          regions = before ++ ⟨base, size⟩ :: after)) := by
  obtain ⟨stale, slots, total⟩ := lists.slots
  have cnt := lists.cnt
  cases stale with
  | nil =>
    rw [List.length_nil] at total
    omega
  | cons slot stale =>
    obtain ⟨regions, inserted, length, placed⟩ :=
      lmbInsert_slots size lower upper cnt slot stale
    rw [← List.append_assoc, ← slots] at inserted
    rw [List.length_cons] at total
    refine ⟨_, regions, inserted, ⟨?_, ⟨stale, rfl, by omega⟩, by omega⟩, placed⟩
    have small : rgn.cnt.toNat + 1 < 2 ^ 32 := by
      simp only [MAX_LMB_REGIONS] at room
      omega
    change (rgn.cnt.toNat + 1) % 2 ^ 32 = _
    rw [Nat.mod_eq_of_lt small, cnt, length]

end

end UBootV210.Library
