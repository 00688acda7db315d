import UBootV210.Net.DefragmentHoles

/-! # Filling a hole

What the four ways to take a fragment out of a hole do to the list of holes. -/

namespace UBootV210.Net

open StaticBuffer LinkedRecords

/-- The holes before one as its descriptor knows them: the number 0 says that there
are none, also when the hole before it starts at unit 0. -/
def knownBefore (before : List (Nat × Nat)) : List (Nat × Nat) :=
  if lastOr 0 before = 0 then [] else before

/-- A hole with its neighbours, as the list in the buffer has them. -/
structure Surrounded (defrag : Defrag) (before : List (Nat × Nat)) (hole last : Nat)
    (after : List (Nat × Nat)) : Prop where
  first : defrag.firstHole = firstOr hole before
  front : Segment Hole.lastByte Hole.nextHole Hole.prevHole (holeAt defrag.pktBuff) 0 before hole
  back : Segment Hole.lastByte Hole.nextHole Hole.prevHole (holeAt defrag.pktBuff) hole after 0
  content : holeAt defrag.pktBuff hole = ⟨last, firstOr 0 after, lastOr 0 before⟩
  inside : hole < units
  less : ∀ entry ∈ before, entry.1 < hole
  more : ∀ entry ∈ after, hole < entry.1
  insideBefore : ∀ entry ∈ before, entry.1 < units
  insideAfter : ∀ entry ∈ after, entry.1 < units
  distinctBefore : (before.map Prod.fst).Nodup
  distinctAfter : (after.map Prod.fst).Nodup

variable {defrag : Defrag} {before after : List (Nat × Nat)} {hole last : Nat}

theorem Linked.surrounded (linked : Linked defrag (before ++ (hole, last) :: after)) :
    Surrounded defrag before hole last after := by
  obtain ⟨front, holds, names, follows, back⟩ := segment_append.mp linked.segment
  obtain ⟨orderedBefore, orderedRest, between⟩ := Ordered.append_iff.mp linked.ordered
  obtain ⟨proper, above, orderedAfter⟩ := Ordered.cons_iff.mp orderedRest
  have eta : holeAt defrag.pktBuff hole = ⟨(holeAt defrag.pktBuff hole).lastByte,
    (holeAt defrag.pktBuff hole).nextHole, (holeAt defrag.pktBuff hole).prevHole⟩ := rfl
  exact {
    first := linked.first.trans firstOr_append
    front := front
    back := back
    content := by rw [eta, holds, names, follows]
    inside := proper.1
    less := by
      intro entry member
      have upper := between entry member (hole, last) List.mem_cons_self
      have lower := (orderedBefore.proper entry member).2
      simp only at upper
      omega
    more := by
      intro entry member
      have upper := above entry member
      simp only at upper proper
      omega
    insideBefore := fun entry member => (orderedBefore.proper entry member).1
    insideAfter := fun entry member => (orderedAfter.proper entry member).1
    distinctBefore := orderedBefore.nodup
    distinctAfter := orderedAfter.nodup }

variable {newh : Nat}

namespace Surrounded

variable {defrag : Defrag} {before after : List (Nat × Nat)} {hole last : Nat}
  (around : Surrounded defrag before hole last after)

include around

theorem firstOr_eq_zero_iff : firstOr 0 after = 0 ↔ after = [] := by
  cases after with
  | nil => simp
  | cons entry entries =>
    have positive := around.more entry List.mem_cons_self
    simp only [firstOr_cons, reduceCtorEq, iff_false]
    omega

theorem firstOr_inside : firstOr 0 after < units := by
  by_cases empty : after = []
  · subst empty
    decide
  · obtain ⟨entry, member, equal⟩ := firstOr_mem empty 0
    exact equal ▸ around.insideAfter entry member

theorem lastOr_inside : lastOr 0 before < units := by
  by_cases empty : before = []
  · subst empty
    decide
  · obtain ⟨entry, member, equal⟩ := lastOr_mem empty 0
    exact equal ▸ around.insideBefore entry member

theorem ne_firstOr (earlier : ∀ entry ∈ after, newh < entry.1) (less : index ≤ newh)
    (nonzero : firstOr 0 after ≠ 0) : index ≠ firstOr 0 after := by
  obtain ⟨entry, member, equal⟩ :=
    firstOr_mem (fun none => nonzero (around.firstOr_eq_zero_iff.mpr none)) 0
  rw [← equal]
  exact (less.trans_lt (earlier entry member)).ne

end Surrounded

variable {touched : List Nat}

theorem firstOr_touched (nonempty : after ≠ [])
    (touches : ∀ entry ∈ before ++ after, entry.1 ∈ touched) :
    firstOr 0 after ∈ touched := by
  obtain ⟨entry, member, equal⟩ := firstOr_mem nonempty 0
  exact equal ▸ touches entry (List.mem_append_right _ member)

theorem lastOr_touched (nonempty : before ≠ [])
    (touches : ∀ entry ∈ before ++ after, entry.1 ∈ touched) :
    lastOr 0 before ∈ touched := by
  obtain ⟨entry, member, equal⟩ := lastOr_mem nonempty 0
  exact equal ▸ touches entry (List.mem_append_left _ member)

theorem ne_nil_of_lastOr (nonzero : lastOr 0 before ≠ 0) : before ≠ [] := by
  intro empty
  subst empty
  exact nonzero rfl

theorem lt_of_units (inside : index < units) : index < 65536 :=
  inside.trans (by decide)

/-! ## Taking a hole out -/

/-- The outcome of an operation on the list: the holes that are left, and whether
there are none. -/
structure Filled (defrag changed : Defrag) (touched : List Nat) (holes : List (Nat × Nat)) :
    Prop where
  totalLen : changed.totalLen = defrag.totalLen
  first : holes ≠ [] → changed.firstHole = firstOr 0 holes
  segment : holes ≠ [] →
    Segment Hole.lastByte Hole.nextHole Hole.prevHole (holeAt changed.pktBuff) 0 holes 0
  confined : Confined touched defrag.pktBuff changed.pktBuff

theorem link_eq (writes : number ≠ 0 → Writes buffer number content store)
    (touches : number ≠ 0 → number ∈ touched) :
    ∃ changed, (if number = 0 then .ok buffer else store) = .ok changed ∧
      (number ≠ 0 → holeAt changed number = content) ∧
      (∀ index, (number ≠ 0 → index ≠ number) → holeAt changed index = holeAt buffer index) ∧
      Confined touched buffer changed := by
  by_cases none : number = 0
  · rw [if_pos none]
    exact ⟨buffer, rfl, fun some => absurd none some, fun _ _ => rfl, .refl _⟩
  · obtain ⟨changed, stored, view, confined⟩ := writes none
    rw [if_neg none]
    refine ⟨changed, stored, fun _ => ?_, fun index other => ?_, confined.of_mem (touches none)⟩
    · rw [view, Function.update_self]
    · rw [view, Function.update_of_ne (other none)]

def linkPrevHole (buffer : Nat → UInt8) (prevHole hole : Nat) : Exec (Nat → UInt8) :=
  if prevHole = 0 then .ok buffer else storeNextHole buffer prevHole hole

/-- Other descriptors, in a changed buffer, are put into the place of a hole. -/
structure Surrounded.Replaces (defrag : Defrag) (before middle after : List (Nat × Nat))
    (buffer : Nat → UInt8) : Prop where
  same : ∀ entry ∈ before ++ after, holeAt buffer entry.1 = holeAt defrag.pktBuff entry.1
  inside : ∀ entry ∈ middle, entry.1 < units
  less : ∀ entry ∈ middle, ∀ other ∈ before, other.1 < entry.1
  more : ∀ entry ∈ middle, ∀ other ∈ after, entry.1 < other.1
  part : Segment Hole.lastByte Hole.nextHole Hole.prevHole (holeAt buffer) (lastOr 0 before) middle
    (firstOr 0 after)

theorem lastOr_knownBefore : lastOr 0 (knownBefore before) = lastOr 0 before := by
  rw [knownBefore]
  split_ifs with zero
  · exact zero.symm
  · rfl

theorem knownBefore_sublist (before : List (Nat × Nat)) : (knownBefore before).Sublist before := by
  rw [knownBefore]
  split_ifs <;> simp

theorem lastOr_ne_zero (some : knownBefore before ≠ []) : lastOr 0 before ≠ 0 :=
  fun zero => some (if_pos zero)

section

variable (around : Surrounded defrag before hole last after)
include around

theorem Surrounded.relink (replaces : Replaces defrag before middle after buffer)
    (touches : ∀ entry ∈ before ++ after, entry.1 ∈ touched) :
    ∃ linked changed,
      linkNextHole buffer (firstOr 0 after) (lastOr (lastOr 0 before) middle) = .ok linked ∧
      (∀ entry ∈ middle, holeAt linked entry.1 = holeAt buffer entry.1) ∧
      linkPrevHole linked (lastOr 0 before) (firstOr (firstOr 0 after) middle) = .ok changed ∧
      Segment Hole.lastByte Hole.nextHole Hole.prevHole (holeAt changed) 0
        (knownBefore before ++ (middle ++ after)) 0 ∧
      Confined touched buffer changed := by
  have numbers : lastOr (lastOr 0 before) middle < 65536 ∧
      firstOr (firstOr 0 after) middle < 65536 := by
    cases middle with
    | nil => exact ⟨lt_of_units around.lastOr_inside, lt_of_units around.firstOr_inside⟩
    | cons entry entries =>
      obtain ⟨final, member, equal⟩ := lastOr_mem (List.cons_ne_nil entry entries) (lastOr 0 before)
      rw [← equal]
      exact ⟨lt_of_units (replaces.inside final member),
        lt_of_units (replaces.inside entry List.mem_cons_self)⟩
  obtain ⟨linked, links, atNext, besideNext, confinedNext⟩ := link_eq
    (fun _ => (storeHole_writes buffer around.firstOr_inside numbers.1).2.2)
    fun some => firstOr_touched (fun none => some (around.firstOr_eq_zero_iff.mpr none)) touches
  obtain ⟨changed, linksBack, atPrev, besidePrev, confinedPrev⟩ := link_eq
    (fun _ => (storeHole_writes linked around.lastOr_inside numbers.2).2.1)
    fun some => lastOr_touched (ne_nil_of_lastOr some) touches
  -- The descriptors in front are below the others.
  have prevApart {index : Nat} (above : ∀ entry ∈ before, entry.1 < index)
      (some : lastOr 0 before ≠ 0) : index ≠ lastOr 0 before := by
    obtain ⟨entry, member, equal⟩ := lastOr_mem (ne_nil_of_lastOr some) 0
    exact equal ▸ (above entry member).ne'
  have known := knownBefore_sublist before
  have belowAfter (entry : Nat × Nat) (member : entry ∈ before) :
      ∀ other ∈ after, entry.1 < other.1 :=
    fun other later => (around.less entry member).trans (around.more other later)
  refine ⟨linked, changed, links,
    fun entry member => besideNext _ (around.ne_firstOr (replaces.more entry member) le_rfl),
    linksBack, ?_, confinedNext.trans confinedPrev⟩
  have front : Segment Hole.lastByte Hole.nextHole Hole.prevHole (holeAt defrag.pktBuff) 0
      (knownBefore before) hole := by
    rw [knownBefore]
    split_ifs
    · trivial
    · exact around.front
  have part := replaces.part.congr fun entry member =>
    (besidePrev entry.1 (prevApart (replaces.less entry member))).trans
      (besideNext entry.1 (around.ne_firstOr (replaces.more entry member) le_rfl))
  rw [← lastOr_knownBefore] at part
  refine front.splice around.back (around.distinctBefore.sublist (known.map _))
    around.distinctAfter part ⟨?_, ?_⟩ ⟨?_, ?_⟩
  · intro entry member other
    have listed := known.subset member
    rw [lastOr_knownBefore] at other
    rw [besidePrev _ fun _ => other,
      besideNext _ (around.ne_firstOr (belowAfter entry listed) le_rfl),
      replaces.same entry (List.mem_append_left _ listed)]
  · intro some
    have nonzero := lastOr_ne_zero some
    obtain ⟨entry, member, equal⟩ := lastOr_mem (ne_nil_of_lastOr nonzero) 0
    rw [lastOr_knownBefore, atPrev nonzero, ← equal,
      besideNext _ (around.ne_firstOr (belowAfter entry member) le_rfl),
      replaces.same entry (List.mem_append_left _ member)]
    exact ⟨rfl, rfl, rfl⟩
  · intro entry member other
    have above : ∀ earlier ∈ before, earlier.1 < entry.1 :=
      fun earlier listed => belowAfter earlier listed entry member
    rw [besidePrev _ (prevApart above), besideNext _ fun _ => other,
      replaces.same entry (List.mem_append_right _ member)]
  · intro some
    obtain ⟨entry, member, equal⟩ := firstOr_mem some 0
    have nonzero : firstOr 0 after ≠ 0 := fun zero => some (around.firstOr_eq_zero_iff.mp zero)
    have above : ∀ earlier ∈ before, earlier.1 < firstOr 0 after :=
      fun earlier listed => equal ▸ belowAfter earlier listed entry member
    rw [besidePrev _ (prevApart above), atNext nonzero, ← equal,
      replaces.same entry (List.mem_append_right _ member), lastOr_knownBefore]
    exact ⟨rfl, rfl, rfl⟩

theorem Surrounded.first_eq (middle : List (Nat × Nat)) :
    (if lastOr 0 before = 0 then firstOr (firstOr 0 after) middle else defrag.firstHole) =
      firstOr 0 (knownBefore before ++ (middle ++ after)) := by
  rw [knownBefore, around.first]
  split_ifs with zero
  · rw [List.nil_append, firstOr_append]
  · rw [firstOr_append]
    exact firstOr_congr (ne_nil_of_lastOr zero)

theorem removeHole_fills (touches : ∀ entry ∈ before ++ after, entry.1 ∈ touched) :
    ∃ changed, removeHole hole defrag = .ok (changed, decide (knownBefore before ++ after = [])) ∧
      Filled defrag changed touched (knownBefore before ++ after) := by
  have replaces : Surrounded.Replaces defrag before [] after defrag.pktBuff :=
    ⟨fun _ _ => rfl, by simp, by simp, by simp, trivial⟩
  obtain ⟨linked, changed, links, _, linksBack, segment, confined⟩ := around.relink replaces touches
  have first : _ = firstOr 0 (knownBefore before ++ after) := around.first_eq []
  have empty : knownBefore before ++ after = [] ↔ lastOr 0 before = 0 ∧ firstOr 0 after = 0 := by
    rw [around.firstOr_eq_zero_iff, knownBefore]
    split_ifs with zero
    · simp [zero]
    · simp [zero, ne_nil_of_lastOr zero]
  obtain ⟨_, loadsNext, loadsPrev⟩ := loadHole_eq defrag.pktBuff around.inside
  rw [removeHole, loadsPrev, Exec.ok_bind, loadsNext, Exec.ok_bind, around.content]
  by_cases none : knownBefore before ++ after = []
  · obtain ⟨noPrev, noNext⟩ := empty.mp none
    rw [if_pos noPrev, if_pos noNext, decide_eq_true none]
    exact ⟨defrag, rfl, rfl, fun some => absurd none some, fun some => absurd none some, .refl _⟩
  · refine ⟨⟨changed, firstOr 0 (knownBefore before ++ after), defrag.totalLen⟩, ?_, rfl,
      fun _ => rfl, fun _ => segment, confined⟩
    rw [decide_eq_false none, ← first]
    rw [linkNextHole] at links
    rw [linkPrevHole] at linksBack
    by_cases noPrev : lastOr 0 before = 0
    · have someNext : firstOr 0 after ≠ 0 := fun noNext => none (empty.mpr ⟨noPrev, noNext⟩)
      rw [if_neg someNext, lastOr_nil, noPrev] at links
      rw [if_pos noPrev] at linksBack
      simp [noPrev, someNext, links, Except.ok.inj linksBack]
    · rw [if_neg noPrev, firstOr_nil] at linksBack
      by_cases noNext : firstOr 0 after = 0
      · rw [if_pos noNext] at links
        rw [← Except.ok.inj links, noNext] at linksBack
        simp [noPrev, noNext, linksBack]
      · rw [if_neg noNext, lastOr_nil] at links
        simp [noPrev, noNext, links, linksBack]

/-! ## Leaving a part of a hole -/

theorem storeLastByte_fills (inRange : start < 65536) :
    ∃ buffer, storeLastByte defrag.pktBuff hole start = .ok buffer ∧
      Filled defrag { defrag with pktBuff := buffer } [hole]
        (before ++ (hole, start) :: after) := by
  obtain ⟨buffer, stored, view, confined⟩ :=
    (storeHole_writes defrag.pktBuff around.inside inRange).1
  refine ⟨buffer, stored, rfl, fun _ => ?_, fun _ => segment_append.mpr ⟨?_, ?_⟩, confined⟩
  · rw [firstOr_append]
    exact around.first
  · apply around.front.congr
    intro entry member
    rw [view, Function.update_of_ne (around.less entry member).ne]
  · have written : holeAt buffer hole = ⟨start, firstOr 0 after, lastOr 0 before⟩ := by
      rw [view, Function.update_self, around.content]
    refine ⟨by rw [written], by rw [written], by rw [written], around.back.congr ?_⟩
    intro entry member
    rw [view, Function.update_of_ne (around.more entry member).ne']

theorem moveHole_fills (inside : newh < units) (later : hole < newh)
    (earlier : ∀ entry ∈ after, newh < entry.1)
    (touches : ∀ entry ∈ before ++ after, entry.1 ∈ touched) (touchesNew : newh ∈ touched) :
    ∃ changed, moveHole hole newh defrag = .ok changed ∧
      Filled defrag changed touched (knownBefore before ++ (newh, last) :: after) := by
  obtain ⟨copied, copies, view, confined⟩ :=
    copyHole_writes defrag.pktBuff around.inside inside
  have less (entry : Nat × Nat) (member : entry ∈ before) : entry.1 < newh :=
    (around.less entry member).trans later
  have moved : holeAt copied newh = ⟨last, firstOr 0 after, lastOr 0 before⟩ := by
    rw [view, Function.update_self, around.content]
  have replaces : Surrounded.Replaces defrag before [(newh, last)] after copied := by
    refine ⟨fun entry member => ?_, by simpa using inside, by simpa using less,
      by simpa using earlier, ?_⟩
    · have other : entry.1 ≠ newh := (List.mem_append.mp member).elim
        (fun front => (less entry front).ne) fun back => (earlier entry back).ne'
      rw [view, Function.update_of_ne other]
    · exact ⟨by rw [moved], by rw [moved], by rw [moved]; rfl, trivial⟩
  obtain ⟨linked, changed, links, still, linksBack, segment, confinedLinks⟩ :=
    around.relink replaces touches
  have movedStill := (still (newh, last) List.mem_cons_self).trans moved
  have first : _ = firstOr 0 (knownBefore before ++ (newh, last) :: after) :=
    around.first_eq [(newh, last)]
  rw [moveHole, copies, Exec.ok_bind, (loadHole_eq copied inside).2.1, Exec.ok_bind, moved]
  rw [show lastOr (lastOr 0 before) [(newh, last)] = newh from rfl] at links
  rw [links, Exec.ok_bind, (loadHole_eq linked inside).2.2, Exec.ok_bind, movedStill]
  refine ⟨⟨changed, firstOr 0 (knownBefore before ++ (newh, last) :: after), defrag.totalLen⟩, ?_,
    rfl, fun _ => rfl, fun _ => segment, (confined.of_mem touchesNew).trans confinedLinks⟩
  rw [linkPrevHole] at linksBack
  rw [← first]
  by_cases noPrev : lastOr 0 before = 0
  · rw [if_pos noPrev] at linksBack
    rw [if_pos noPrev, if_pos noPrev, Except.ok.inj linksBack]
    rfl
  · rw [if_neg noPrev] at linksBack
    rw [if_neg noPrev, if_neg noPrev]
    simpa using congrArg (Functor.map _) linksBack

theorem splitHole_fills (inside : newh < units) (later : hole < newh)
    (earlier : ∀ entry ∈ after, newh < entry.1) (inRange : start < 65536)
    (touches : ∀ entry ∈ before ++ after, entry.1 ∈ touched) (touchesNew : newh ∈ touched)
    (touchesHole : hole ∈ touched) :
    ∃ changed, splitHole hole newh start defrag = .ok changed ∧
      Filled defrag changed touched (before ++ (hole, start) :: (newh, last) :: after) := by
  obtain ⟨copied, copies, view, confined⟩ :=
    copyHole_writes defrag.pktBuff around.inside inside
  obtain ⟨shortened, shortens, viewShort, confinedShort⟩ :=
    (storeHole_writes copied around.inside inRange).1
  obtain ⟨pointed, points, viewPoint, confinedPoint⟩ :=
    (storeHole_writes shortened around.inside (lt_of_units inside)).2.1
  obtain ⟨named, names, viewName, confinedName⟩ :=
    (storeHole_writes pointed inside (lt_of_units around.inside)).2.2
  have atNew : holeAt named newh = ⟨last, firstOr 0 after, hole⟩ := by
    rw [viewName, Function.update_self, viewPoint, Function.update_of_ne later.ne', viewShort,
      Function.update_of_ne later.ne', view, Function.update_self, around.content]
  have atHole : holeAt named hole = ⟨start, newh, lastOr 0 before⟩ := by
    rw [viewName, Function.update_of_ne later.ne, viewPoint, Function.update_self, viewShort,
      Function.update_self, view, Function.update_of_ne later.ne, around.content]
  have kept (index : Nat) (notNew : index ≠ newh) (notHole : index ≠ hole) :
      holeAt named index = holeAt defrag.pktBuff index := by
    rw [viewName, Function.update_of_ne notNew, viewPoint, Function.update_of_ne notHole,
      viewShort, Function.update_of_ne notHole, view, Function.update_of_ne notNew]
  obtain ⟨linked, links, atNext, elsewhere, confinedNext⟩ := link_eq
    (fun _ => (storeHole_writes named around.firstOr_inside (lt_of_units inside)).2.2)
    fun some => firstOr_touched (fun none => some (around.firstOr_eq_zero_iff.mpr none)) touches
  rw [splitHole, copies, Exec.ok_bind, shortens, Exec.ok_bind, points, Exec.ok_bind, names,
    Exec.ok_bind, (loadHole_eq named inside).2.1, Exec.ok_bind, atNew, linkNextHole, links]
  refine ⟨{ defrag with pktBuff := linked }, rfl, rfl, fun _ => ?_,
    fun _ => segment_append.mpr ⟨?_, ?_, ?_, ?_, ?_, ?_, ?_, ?_⟩, ?_⟩
  · rw [around.first, firstOr_append]
    rfl
  · apply around.front.congr
    intro entry member
    have less := around.less entry member
    rw [elsewhere _ (around.ne_firstOr earlier (less.trans later).le),
      kept _ (less.trans later).ne less.ne]
  · rw [elsewhere _ (around.ne_firstOr earlier later.le), atHole]
  · rw [elsewhere _ (around.ne_firstOr earlier later.le), atHole]
  · rw [elsewhere _ (around.ne_firstOr earlier later.le), atHole]
    rfl
  · rw [elsewhere _ (around.ne_firstOr earlier le_rfl), atNew]
  · rw [elsewhere _ (around.ne_firstOr earlier le_rfl), atNew]
  · rw [elsewhere _ (around.ne_firstOr earlier le_rfl), atNew]
  · refine around.back.setPrev around.distinctAfter ⟨?_, ?_⟩
    · intro entry member other
      rw [elsewhere _ fun _ => other, kept _ (earlier entry member).ne'
        (around.more entry member).ne']
    · intro some
      obtain ⟨entry, member, equal⟩ := firstOr_mem some 0
      have nonzero : firstOr 0 after ≠ 0 := fun zero => some (around.firstOr_eq_zero_iff.mp zero)
      rw [atNext nonzero, ← equal, kept _ (earlier entry member).ne' (around.more entry member).ne']
      exact ⟨rfl, rfl, rfl⟩
  · exact ((((confined.of_mem touchesNew).trans (confinedShort.of_mem touchesHole)).trans
      (confinedPoint.of_mem touchesHole)).trans (confinedName.of_mem touchesNew)).trans confinedNext

end

end UBootV210.Net
