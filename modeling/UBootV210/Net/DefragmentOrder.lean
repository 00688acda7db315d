import UBootV210.Net.DefragmentSplit

/-! # Arrival of the pieces of a datagram

The holes in the buffer are the places that are missing as long as a piece does not
start right behind the first hole while that hole starts with the payload: the
descriptor of the hole behind it then says that there is none before it. -/

namespace UBootV210.Net

open StaticBuffer LinkedRecords Intervals

/-! ## Fragments of a split -/

structure Split.IsFragment (split : Split) (id index : Nat) (ip : List UInt8) : Prop where
  inside : index < split.count
  available : ipLen ip ≤ ip.length
  length : ipLen ip = ipHdrSize + (split.piece index).length
  ident : ipId ip = id
  offset : 8 * offset8 ip = split.start index
  more : moreFragments ip = decide (index + 1 < split.count)
  payload : (ip.drop ipHdrSize).take (split.piece index).length = split.piece index

/-- The piece starts the second hole, and the first hole starts with the payload. -/
def StartsSecondHole (arrived : List Nat) (index : Nat) : Prop :=
  index ∉ arrived ∧ ∃ first, 0 < first ∧ first < index ∧
    (∀ other, other < first → other ∉ arrived) ∧
    ∀ other, first ≤ other → other < index → other ∈ arrived

def holeStart (hole : Nat × Nat) : Nat := 8 * hole.1

def holeStop (hole : Nat × Nat) : Nat := hole.2

structure Outlines (split : Split) (arrived : List Nat) (holes : List (Nat × Nat)) : Prop where
  separated : Separated holeStart holeStop holes
  covers : ∀ place, Covers holeStart holeStop holes place ↔ split.Missing arrived place
  aligned : ∀ hole ∈ holes, hole.2 % 8 = 0 ∨ hole.2 = 0xffff

structure Stores (split : Split) (id : Nat) (arrived : List Nat) (defrag : Defrag) : Prop where
  payload : ∀ place, place < split.total → ¬ split.Missing arrived place →
    defrag.pktBuff (ipHdrSize + place) = split.pieces.flatten.getD place 0
  localId : defrag.localId = id
  totalLen : defrag.totalLen = if split.count - 1 ∈ arrived then split.total else 0xffff
  known : ∀ index ∈ arrived, index < split.count

/-- The buffer holds the pieces that have arrived and a list of the holes. -/
structure Tracks (split : Split) (id : Nat) (arrived : List Nat) (defrag : Defrag)
    (holes : List (Nat × Nat)) : Prop extends Stores split id arrived defrag where
  linked : Linked defrag holes
  outlines : Outlines split arrived holes

section

variable {split : Split} {id index : Nat} {ip : List UInt8}

section

variable (fragment : split.IsFragment id index ip)
include fragment

theorem Split.IsFragment.payloadLen_eq : payloadLen ip = (split.piece index).length := by
  rw [payloadLen, fragment.length]
  omega

theorem Split.IsFragment.fragStart_eq : fragStart ip = split.start index := fragment.offset

theorem Split.IsFragment.fragStop_eq : fragStop ip = split.start (index + 1) := by
  rw [fragStop, fragment.fragStart_eq, fragment.payloadLen_eq, Split.start_succ fragment.inside]

theorem Split.IsFragment.header : ipHdrSize ≤ ipLen ip := by
  rw [fragment.length]
  omega

theorem Split.IsFragment.stop_inside : fragStop ip ≤ ipMaxudp := by
  rw [fragment.fragStop_eq]
  exact (Split.start_le_total fragment.inside).trans split.fits

theorem Split.IsFragment.stop_le_reach : fragStop ip ≤ split.reach index := by
  rw [Split.reach]
  split_ifs with more
  · exact fragment.fragStop_eq.le
  · exact fragment.stop_inside.trans (by decide)

theorem Split.IsFragment.reach_of_more (more : moreFragments ip = true) :
    split.reach index = fragStop ip := by
  rw [fragment.more, decide_eq_true_eq] at more
  rw [Split.reach, if_pos more, fragment.fragStop_eq]

end

theorem Split.flatten_getD (inside : index < split.count)
    (within : offset < (split.piece index).length) :
    split.pieces.flatten.getD (split.start index + offset) 0 =
      (split.piece index).getD offset 0 := by
  have shape : split.pieces.flatten = (split.pieces.take index).flatten ++
      (split.piece index ++ (split.pieces.drop (index + 1)).flatten) := by
    rw [Split.piece, List.getD_eq_getElem _ _ inside, ← List.flatten_cons,
      ← List.drop_eq_getElem_cons inside, ← List.flatten_append, List.take_append_drop]
  rw [shape, Split.start, List.getD_append_right _ _ _ _ (Nat.le_add_right _ _),
    Nat.add_sub_cancel_left, List.getD_append _ _ _ _ within]

theorem Split.IsFragment.getD_eq (fragment : split.IsFragment id index ip) {offset : Nat}
    (within : offset < payloadLen ip) :
    (ip.drop ipHdrSize).getD offset 0 =
      split.pieces.flatten.getD (split.start index + offset) 0 := by
  rw [fragment.payloadLen_eq] at within
  have source : offset < ((ip.drop ipHdrSize).take (split.piece index).length).length := by
    rwa [fragment.payload]
  rw [Split.flatten_getD fragment.inside within, ← fragment.payload,
    List.getD_eq_getElem _ _ source, List.getElem_take]
  rw [List.length_take] at source
  rw [List.getD_eq_getElem _ _ (by omega)]

end

section

variable {before after : List (Nat × Nat)} {hole last start stop : Nat}

theorem fill_of_known (low : 8 * hole ≤ start)
    (known : start = 8 * hole → knownBefore before = before) :
    fill before hole last after start stop = before ++ (remains hole last start stop ++ after) := by
  rw [fill_eq]
  split_ifs with fromStart
  · rw [known (by omega)]
  · rfl

section

variable (separated : Separated holeStart holeStop (before ++ (hole, last) :: after))
  (low : 8 * hole ≤ start) (forward : start < stop) (high : stop ≤ last)
  (whole : stop < last → stop % 8 = 0) (known : start = 8 * hole → knownBefore before = before)

include separated low forward high whole known

theorem fill_covers : Covers holeStart holeStop (fill before hole last after start stop) place ↔
      Covers holeStart holeStop (before ++ (hole, last) :: after) place ∧
        ¬ (start ≤ place ∧ place < stop) := by
  rw [fill_of_known low known]
  apply separated.covers_parts
  · simp only [holeStart, holeStop]
    omega
  · rw [remains, covers_append]
    split_ifs <;>
      simp only [covers_nil, covers_cons, or_false, false_or, false_iff, holeStart, holeStop] <;>
      omega

theorem fill_separated : Separated holeStart holeStop (fill before hole last after start stop) := by
  rw [fill_of_known low known]
  apply pairwise_parts separated
  · rw [remains]
    split_ifs <;> simp [holeStart, holeStop]
    omega
  · intro part member left
    rcases mem_remains member with ⟨_, rfl⟩ | ⟨_, rfl⟩ <;> simp only [holeStart, holeStop] <;> omega
  · intro part member right
    rcases mem_remains member with ⟨_, rfl⟩ | ⟨_, rfl⟩ <;> simp only [holeStart, holeStop] <;> omega

end

theorem fill_aligned (aligned : ∀ entry ∈ before ++ (hole, last) :: after,
      entry.2 % 8 = 0 ∨ entry.2 = 0xffff) (whole : start % 8 = 0) :
    ∀ entry ∈ fill before hole last after start stop, entry.2 % 8 = 0 ∨ entry.2 = 0xffff := by
  intro entry member
  rcases mem_fill member with earlier | later | ⟨_, rfl⟩ | ⟨_, rfl⟩
  · exact aligned entry (by simp [earlier])
  · exact aligned entry (by simp [later])
  · exact .inl whole
  · exact aligned (hole, last) (by simp)

end

/-! ## Where a piece meets the holes -/

section

variable {split : Split} {id index : Nat} {ip : List UInt8} {arrived : List Nat} {defrag : Defrag}
  {holes before after : List (Nat × Nat)} {hole last : Nat}

theorem Tracks.last_le (tracks : Tracks split id arrived defrag holes)
    (member : entry ∈ holes) : entry.2 ≤ 0xffff := by
  have proper := (tracks.linked.ordered.proper entry member).2
  have inside : Covers holeStart holeStop holes (entry.2 - 1) :=
    ⟨entry, member, by simp only [holeStart]; omega, by simp only [holeStop]; omega⟩
  have small := ((tracks.outlines.covers _).mp inside).1
  omega

theorem Tracks.fitting (nonempty : ∀ piece ∈ split.pieces, piece ≠ [])
    (tracks : Tracks split id arrived defrag holes)
    (fragment : split.IsFragment id index ip) : Fitting ip holes := by
  refine ⟨fragment.header, fun more => ?_, ?_⟩
  · rw [fragment.more, decide_eq_true_eq] at more
    have before := Split.start_lt_total nonempty more
    have unit := Split.start_mod more
    have fits := split.fits
    rw [fragment.payloadLen_eq, fragment.fragStop_eq]
    refine ⟨split.aligned index more, ?_⟩
    rw [Split.total] at before
    rw [ipMaxudp, ipPktsize, ipHdrSize] at *
    omega
  · apply tracks.outlines.separated.imp_of_mem
    intro left right leftMember rightMember apart reaches
    by_contra notBefore
    have atRight : split.start index ≤ 8 * right.1 ∧ 8 * right.1 < split.reach index := by
      have stop := fragment.stop_le_reach
      rw [fragment.fragStart_eq] at reaches
      simp only [holeStop, holeStart] at apart
      omega
    have rightProper := (tracks.linked.ordered.proper right rightMember).2
    have missing : split.Missing arrived (8 * right.1) :=
      (tracks.outlines.covers _).mp ⟨right, rightMember, le_rfl, rightProper⟩
    by_cases present : index ∈ arrived
    · exact Split.not_missing_of_mem present atRight missing
    · have leftProper := (tracks.linked.ordered.proper left leftMember).2
      apply tracks.outlines.separated.not_covers_stop leftMember leftProper
      rw [tracks.outlines.covers]
      rw [fragment.fragStart_eq] at reaches
      apply Split.missing_of_notMem tracks.known fragment.inside present
      · simp only [holeStop, holeStart] at apart ⊢
        omega
      · simp only [holeStop, holeStart] at apart ⊢
        have small := missing.1
        omega

theorem Tracks.locate (nonempty : ∀ piece ∈ split.pieces, piece ≠ [])
    (tracks : Tracks split id arrived defrag holes) (inside : index < split.count)
    (absent : index ∉ arrived) (cut : Cut holes before hole last after (split.start index)) :
    8 * hole ≤ split.start index ∧ split.reach index ≤ last := by
  have separated := tracks.outlines.separated
  rw [cut.shape] at separated
  obtain ⟨_, _, above⟩ := separated_cut.mp separated
  have only {place : Nat} (low : split.start index ≤ place) (high : place ≤ last)
      (missing : split.Missing arrived place) : 8 * hole ≤ place ∧ place < last := by
    obtain ⟨entry, entryMember, lower, upper⟩ := (tracks.outlines.covers place).mpr missing
    rw [cut.shape] at entryMember
    rcases List.mem_append.mp entryMember with inBefore | inRest
    · have passed := cut.passed entry inBefore
      simp only [holeStop] at upper
      omega
    · rcases List.mem_cons.mp inRest with rfl | inAfter
      · exact ⟨lower, upper⟩
      · have later := above entry inAfter
        simp only [holeStart, holeStop] at later lower
        omega
  have forward := Split.start_lt_reach nonempty inside
  have reachSmall : split.reach index ≤ 0xffff := by
    rw [Split.reach]
    split_ifs with more
    · exact (Split.start_le_total more.le).trans Split.total_lt.le
    · exact le_rfl
  refine ⟨(only le_rfl cut.reaches (Split.missing_of_notMem tracks.known inside absent
    ⟨le_rfl, forward⟩ (by omega))).1, ?_⟩
  by_contra short
  have gap := only cut.reaches le_rfl (Split.missing_of_notMem tracks.known inside absent
    ⟨cut.reaches, by omega⟩ (by omega))
  omega

theorem Tracks.filled_of_not_covers (tracks : Tracks split id arrived defrag holes)
    (small : place < 0xffff) (outside : ¬ Covers holeStart holeStop holes place) :
    ∃ filling ∈ arrived, split.start filling ≤ place ∧ place < split.reach filling := by
  rw [tracks.outlines.covers] at outside
  by_contra none
  apply outside
  refine ⟨small, fun filling member fills => none ⟨filling, member, fills⟩⟩

/-- The descriptor of a hole says that there is none before it although there is one:
this one starts with the payload. -/
theorem eq_singleton_of_unknown (ordered : Ordered before) (unknown : knownBefore before ≠ before) :
    ∃ stop, before = [(0, stop)] := by
  have zero : lastOr 0 before = 0 := by
    by_contra nonzero
    exact unknown (if_neg nonzero)
  have some : before ≠ [] := by
    intro empty
    subst empty
    exact unknown rfl
  obtain ⟨earlier, entry, rfl⟩ :=
    (List.eq_nil_or_concat' before).resolve_left some
  rw [lastOr_append] at zero
  have none : earlier = [] := by
    cases earlier with
    | nil => rfl
    | cons first earlier =>
      have apart := (Ordered.append_iff.mp ordered).2.2 first List.mem_cons_self entry
        List.mem_cons_self
      have proper := (ordered.proper first (by simp)).2
      have atZero : entry.1 = 0 := zero
      omega
  subst none
  exact ⟨entry.2, by rw [List.nil_append, ← zero]; rfl⟩

/-- The holes before one are not known to it only if it is the second one and the
first one starts with the payload. -/
theorem Tracks.startsSecondHole (nonempty : ∀ piece ∈ split.pieces, piece ≠ [])
    (tracks : Tracks split id arrived defrag holes)
    (inside : index < split.count) (absent : index ∉ arrived)
    (cut : Cut holes before hole last after (split.start index))
    (atStart : split.start index = 8 * hole) (unknown : knownBefore before ≠ before) :
    StartsSecondHole arrived index := by
  have ordered := tracks.linked.ordered
  have separated := tracks.outlines.separated
  have covered := tracks.outlines.covers
  have shape := cut.shape
  rw [shape] at ordered separated covered
  obtain ⟨stop, rfl⟩ := eq_singleton_of_unknown (Ordered.append_iff.mp ordered).1 unknown
  have proper := (ordered.proper (0, stop) (by simp)).2
  have short := cut.passed (0, stop) List.mem_cons_self
  simp only at proper short
  have small := (Split.start_lt_total nonempty inside).trans Split.total_lt
  obtain ⟨_, _, above⟩ := separated_cut.mp separated
  -- the first hole holds the places before `stop`
  have missing {place : Nat} (less : place < stop) : split.Missing arrived place :=
    (covered place).mp ⟨(0, stop), by simp, by simp [holeStart], less⟩
  have filled {place : Nat} (low : stop ≤ place) (high : place < split.start index) :
      ∃ filling ∈ arrived, split.start filling ≤ place ∧ place < split.reach filling := by
    apply tracks.filled_of_not_covers (high.trans small)
    rw [shape, covers_append, covers_cons, covers_cons]
    rintro ((inFirst | none) | inHole | ⟨entry, member, lower, _⟩)
    · have upper := inFirst.2
      simp only [holeStop] at upper
      omega
    · simp at none
    · have lower := inHole.1
      simp only [holeStart] at lower
      omega
    · have later := above entry member
      have reaches := cut.reaches
      simp only [holeStart, holeStop] at later lower
      omega
  obtain ⟨first, member, lower, upper⟩ := filled le_rfl short
  have known := tracks.known first member
  have notMissing {other place : Nat} (present : other ∈ arrived)
      (fills : split.start other ≤ place ∧ place < split.reach other) : stop ≤ place := by
    by_contra less
    exact Split.not_missing_of_mem present fills (missing (not_le.mp less))
  have equal : split.start first = stop := le_antisymm lower
    (notMissing member ⟨le_rfl, Split.start_lt_reach nonempty known⟩)
  refine ⟨absent, first, ?_, ?_, ?_, ?_⟩
  · by_contra notPositive
    have zero : first = 0 := Nat.eq_zero_of_not_pos notPositive
    subst zero
    rw [Split.start_zero] at equal
    omega
  · by_contra notLess
    have order := Split.start_mono (not_lt.mp notLess) known.le
    omega
  · intro other less present
    have early := Split.start_strictMono nonempty less known
    have late := notMissing present ⟨le_rfl, Split.start_lt_reach nonempty (less.trans known)⟩
    omega
  · intro other low high
    have order := Split.start_mono low (high.trans inside).le
    obtain ⟨filling, present, fills⟩ := filled (by omega)
      (Split.start_strictMono nonempty high inside)
    have same := Split.filling_unique (tracks.known filling present) (high.trans inside) fills
      ⟨le_rfl, Split.start_lt_reach nonempty (high.trans inside)⟩
    exact same ▸ present

/-! ## The step -/

theorem holesLeft_eq (fragment : split.IsFragment id index ip) (lastSmall : last ≤ 0xffff) :
    holesLeft ip before hole last after =
      fill before hole last after (split.start index) (split.reach index) := by
  rw [holesLeft, truncatedLast, fragment.fragStart_eq]
  cases more : moreFragments ip with
  | true => rw [if_pos rfl, fragment.reach_of_more more]
  | false =>
    have final : split.reach index = 0xffff := by
      rw [fragment.more, decide_eq_false_iff_not] at more
      rw [Split.reach, if_neg more]
    rw [if_neg (by simp), final, fill, fill, if_pos le_rfl, if_pos lastSmall]

theorem Outlines.covers_unit (outlines : Outlines split arrived holes) (ordered : Ordered holes)
    (member : entry ∈ holes) (low : 8 * entry.1 ≤ place)
    (high : place < 8 * entry.1 + 8) : split.Missing arrived place := by
  rw [← outlines.covers]
  refine ⟨entry, member, low, ?_⟩
  have proper := ordered.proper entry member
  have aligned := outlines.aligned entry member
  simp only [holeStop]
  rw [units] at proper
  omega

theorem Placed.stores (placed : Placed ip started changed holes left)
    (tracks : Tracks split id arrived started holes) (fragment : split.IsFragment id index ip)
    (outlines : Outlines split (index :: arrived) left) :
    Stores split id (index :: arrived) changed := by
  refine ⟨fun place inside present => ?_, ?_, ?_, ?_⟩
  · by_cases within : fragStart ip ≤ place ∧ place < fragStop ip
    · have copied := placed.payload (place - fragStart ip) (by rw [fragStop] at within; omega)
      rw [Nat.add_sub_cancel' within.1] at copied
      rw [copied, fragment.getD_eq (by rw [fragStop] at within; omega), ← fragment.fragStart_eq,
        Nat.add_sub_cancel' within.1]
    · have stays : ¬ split.Missing arrived place := by
        intro missing
        apply present
        refine Split.missing_cons.mpr ⟨missing, fun fills => within ?_⟩
        rw [fragment.fragStart_eq, fragment.fragStop_eq]
        refine ⟨fills.1, ?_⟩
        have upper := fills.2
        rw [Split.reach] at upper
        split_ifs at upper with more
        · exact upper
        · have final : index + 1 = split.count := by
            have known := fragment.inside
            omega
          rw [final, Split.start_count]
          exact inside
      rw [← tracks.payload place inside stays]
      apply placed.others place _ (by omega)
      intro entry member
      by_contra inUnit
      rcases List.mem_append.mp member with inHoles | inLeft
      · exact stays
          (tracks.outlines.covers_unit tracks.linked.ordered inHoles (by omega) (by omega))
      · have linked := placed.linked (List.ne_nil_of_mem inLeft)
        exact present (outlines.covers_unit linked.ordered inLeft (by omega) (by omega))
  · rw [← tracks.localId, Defrag.localId, Defrag.localId,
      placed.header 4 (by decide) (by decide) (by decide),
      placed.header 5 (by decide) (by decide) (by decide)]
  · rw [placed.totalLen, tracks.totalLen]
    have inside := fragment.inside
    cases more : moreFragments ip with
    | true =>
      rw [fragment.more, decide_eq_true_eq] at more
      have other : split.count - 1 ≠ index := by omega
      rw [if_pos rfl]
      simp only [List.mem_cons, other, false_or]
    | false =>
      rw [fragment.more, decide_eq_false_iff_not] at more
      have same : split.count - 1 = index := by omega
      have final : index + 1 = split.count := by omega
      rw [if_neg (by simp), if_pos (by rw [same]; exact List.mem_cons_self),
        fragment.fragStop_eq, final, Split.start_count]
  · intro other member
    rcases List.mem_cons.mp member with rfl | member
    · exact fragment.inside
    · exact tracks.known other member

theorem Outlines.of_mem (outlines : Outlines split arrived holes) (present : index ∈ arrived) :
    Outlines split (index :: arrived) holes := by
  refine ⟨outlines.separated, fun place => ?_, outlines.aligned⟩
  rw [outlines.covers, Split.missing_cons]
  constructor
  · intro missing
    exact ⟨missing, missing.2 index present⟩
  · exact And.left

theorem Stores.of_mem (stores : Stores split id arrived defrag) (present : index ∈ arrived) :
    Stores split id (index :: arrived) defrag := by
  have same {other : Nat} : other ∈ index :: arrived ↔ other ∈ arrived := by
    rw [List.mem_cons]
    constructor
    · rintro (rfl | member)
      · exact present
      · exact member
    · exact .inr
  refine ⟨fun place inside stays => stores.payload place inside fun missing => stays ?_,
    stores.localId, ?_, fun other member => stores.known other (same.mp member)⟩
  · exact Split.missing_cons.mpr ⟨missing, missing.2 index present⟩
  · rw [stores.totalLen]
    simp only [same]

section

variable (nonempty : ∀ piece ∈ split.pieces, piece ≠ [])
  (tracks : Tracks split id arrived defrag holes)
  (fragment : split.IsFragment id index ip)
include nonempty tracks fragment

theorem Tracks.outlines_left (absent : index ∉ arrived)
    (notSecond : ¬ StartsSecondHole arrived index)
    (cut : Cut holes before hole last after (split.start index)) :
    Outlines split (index :: arrived) (holesLeft ip before hole last after) := by
  obtain ⟨low, high⟩ := tracks.locate nonempty fragment.inside absent cut
  have member : (hole, last) ∈ holes := by
    rw [cut.shape]
    simp
  have forward := Split.start_lt_reach nonempty fragment.inside
  have separated := tracks.outlines.separated
  have aligned := tracks.outlines.aligned
  have known : split.start index = 8 * hole → knownBefore before = before := by
    intro atStart
    by_contra unknown
    exact notSecond (tracks.startsSecondHole nonempty fragment.inside absent cut atStart unknown)
  have whole : split.reach index < last → split.reach index % 8 = 0 := by
    intro less
    have small := tracks.last_le member
    simp only at small
    rw [Split.reach] at less ⊢
    split_ifs at less ⊢ with more
    · exact Split.start_mod more
    · omega
  rw [holesLeft_eq fragment (tracks.last_le member)]
  rw [cut.shape] at separated aligned
  refine ⟨fill_separated separated low forward high whole known, fun place => ?_,
    fill_aligned aligned (Split.start_mod fragment.inside)⟩
  rw [fill_covers separated low forward high whole known, ← cut.shape, tracks.outlines.covers,
    Split.missing_cons]

theorem Tracks.holesLeft_of_mem (present : index ∈ arrived)
    (cut : Cut holes before hole last after (split.start index))
    (overlaps : 8 * hole < fragStop ip) :
    holesLeft ip before hole last after = holes := by
  have member : (hole, last) ∈ holes := by
    rw [cut.shape]
    simp
  have proper := (tracks.linked.ordered.proper (hole, last) member).2
  have forward := Split.start_lt_reach nonempty fragment.inside
  have stop := fragment.stop_le_reach
  have reaches := cut.reaches
  simp only at proper
  have notCovered (place : Nat) (low : split.start index ≤ place)
      (high : place < split.reach index) : ¬ (8 * hole ≤ place ∧ place < last) := by
    intro inside
    exact Split.not_missing_of_mem present ⟨low, high⟩
      ((tracks.outlines.covers place).mp ⟨(hole, last), member, inside.1, inside.2⟩)
  have equal : last = split.start index := by
    by_contra different
    have atStart := notCovered (split.start index) le_rfl forward
    have atHole := notCovered (8 * hole) (by omega) (by omega)
    omega
  have forwardStop := fragStart_le_fragStop ip
  rw [holesLeft, fill, if_pos, if_neg, fragment.fragStart_eq, ← equal, cut.shape]
  · rw [fragment.fragStart_eq]
    omega
  · rw [truncatedLast]
    split_ifs
    · rw [fragment.fragStart_eq] at forwardStop
      omega
    · exact le_rfl

end

theorem Tracks.incomplete (tracks : Tracks split id arrived defrag holes) :
    ∃ other, other < split.count ∧ other ∉ arrived := by
  obtain ⟨entry, member⟩ := List.exists_mem_of_ne_nil holes tracks.linked.nonempty
  have proper := (tracks.linked.ordered.proper entry member).2
  have missing := (tracks.outlines.covers _).mp ⟨entry, member, le_rfl, proper⟩
  obtain ⟨other, inside, fills⟩ := Split.exists_filling missing.1
  exact ⟨other, inside, fun present => missing.2 other present fills⟩

theorem Outlines.complete (nonempty : ∀ piece ∈ split.pieces, piece ≠ [])
    (outlines : Outlines split arrived []) (known : ∀ other ∈ arrived, other < split.count) :
    ∀ other, other < split.count → other ∈ arrived := by
  intro other inside
  by_contra absent
  have small := (Split.start_lt_total nonempty inside).trans Split.total_lt
  have missing := Split.missing_of_notMem known inside absent
    ⟨le_rfl, Split.start_lt_reach nonempty inside⟩ small
  rw [← outlines.covers, covers_nil] at missing
  exact missing

/-- What the call for fragment `index` leaves: holes to fill, or the whole packet. -/
def Received (split : Split) (id index : Nat) (arrived : List Nat) (changed : Defrag)
    (result : Option Nat) : Prop :=
  (result = none ∧ ∃ left, Tracks split id (index :: arrived) changed left) ∨
    (result = some (changed.totalLen + ipHdrSize) ∧ Stores split id (index :: arrived) changed ∧
      ∀ other, other < split.count → other ∈ index :: arrived)

theorem Tracks.receive (nonempty : ∀ piece ∈ split.pieces, piece ≠ [])
    (tracks : Tracks split id arrived started holes)
    (starts : startDatagram ip defrag = .ok started) (fragment : split.IsFragment id index ip)
    (notSecond : ¬ StartsSecondHole arrived index) :
    ∃ changed result, netDefragmentFragment ip defrag = .ok (changed, result) ∧
      Received split id index arrived changed result := by
  have fits := tracks.fitting nonempty fragment
  have forward := Split.start_lt_reach nonempty fragment.inside
  rcases netDefragmentFragment_cases fragment.available starts tracks.linked fits
      fragment.stop_inside with ⟨returns, passes⟩ | ⟨before, hole, last, after, changed, cut,
        overlaps, returns, placed⟩
  · -- the piece meets no hole: it has arrived before
    have present : index ∈ arrived := by
      by_contra absent
      rw [fragment.fragStart_eq] at passes
      rcases passes with passed | ⟨before, hole, last, after, cut, apart⟩
      · have small := (Split.start_lt_total nonempty fragment.inside).trans Split.total_lt
        obtain ⟨entry, member, _, upper⟩ := (tracks.outlines.covers _).mpr
          (Split.missing_of_notMem tracks.known fragment.inside absent ⟨le_rfl, forward⟩ small)
        have short := passed entry member
        simp only [holeStop] at upper
        omega
      · have low := (tracks.locate nonempty fragment.inside absent cut).1
        have positive := Split.piece_length_pos nonempty fragment.inside
        rw [fragment.fragStop_eq, Split.start_succ fragment.inside] at apart
        omega
    exact ⟨started, none, returns, .inl ⟨rfl, holes, tracks.toStores.of_mem present,
      tracks.linked, tracks.outlines.of_mem present⟩⟩
  · rw [fragment.fragStart_eq] at cut
    have outlines : Outlines split (index :: arrived) (holesLeft ip before hole last after) := by
      by_cases present : index ∈ arrived
      · rw [tracks.holesLeft_of_mem nonempty fragment present cut overlaps]
        exact tracks.outlines.of_mem present
      · exact tracks.outlines_left nonempty fragment present notSecond cut
    have stores := placed.stores tracks fragment outlines
    refine ⟨changed, _, returns, ?_⟩
    by_cases done : holesLeft ip before hole last after = []
    · right
      rw [if_pos done]
      rw [done] at outlines
      exact ⟨rfl, stores, outlines.complete nonempty stores.known⟩
    · left
      rw [if_neg done]
      exact ⟨rfl, _, stores, placed.linked done, outlines⟩

end

end UBootV210.Net
