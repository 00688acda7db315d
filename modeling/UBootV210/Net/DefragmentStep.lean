import UBootV210.Foundation.Intervals
import UBootV210.Net.DefragmentFill

/-! # One fragment

What a call of `__NetDefragment` does to a list of holes when the fragment meets
one hole only and leaves room for the descriptor of what remains of it. -/

namespace UBootV210.Net

open StaticBuffer LinkedRecords

/-! ## The fragment and the hole it meets -/

def payloadLen (ip : List UInt8) : Nat := ipLen ip - ipHdrSize

def fragStart (ip : List UInt8) : Nat := 8 * offset8 ip

def fragStop (ip : List UInt8) : Nat := fragStart ip + payloadLen ip

/-- The holes that are left when the bytes from `start` to `stop` are taken out of
the hole that they meet first. -/
def fill (before : List (Nat × Nat)) (hole last : Nat) (after : List (Nat × Nat))
    (start stop : Nat) : List (Nat × Nat) :=
  if last ≤ stop then
    if start ≤ 8 * hole then knownBefore before ++ after
    else before ++ (hole, start) :: after
  else if start ≤ 8 * hole then knownBefore before ++ (stop / 8, last) :: after
  else before ++ (hole, start) :: (stop / 8, last) :: after

/-- The header has its full length; a fragment that is not the last one has a whole
number of units and another unit fits behind it; the fragment does not reach the
hole behind the one that it meets. -/
structure Fitting (ip : List UInt8) (holes : List (Nat × Nat)) : Prop where
  header : ipHdrSize ≤ ipLen ip
  whole : moreFragments ip = true → payloadLen ip % 8 = 0 ∧ fragStop ip + 8 ≤ ipMaxudp
  single : holes.Pairwise fun left right =>
    fragStart ip ≤ left.2 → fragStop ip ≤ 8 * right.1

section

variable {before after : List (Nat × Nat)} {hole last start stop : Nat}

def remains (hole last start stop : Nat) : List (Nat × Nat) :=
  (if start ≤ 8 * hole then [] else [(hole, start)]) ++
    if last ≤ stop then [] else [(stop / 8, last)]

theorem fill_eq : fill before hole last after start stop =
    (if start ≤ 8 * hole then knownBefore before else before) ++
      (remains hole last start stop ++ after) := by
  rw [fill, remains]
  split_ifs <;> simp

theorem mem_remains (member : entry ∈ remains hole last start stop) :
    8 * hole < start ∧ entry = (hole, start) ∨ stop < last ∧ entry = (stop / 8, last) := by
  rw [remains, List.mem_append] at member
  split_ifs at member <;> simp at member <;> grind

theorem fill_sublist : (fill before hole last after start stop).Sublist
    (before ++ (remains hole last start stop ++ after)) := by
  rw [fill_eq, knownBefore]
  apply List.Sublist.append_right
  split_ifs <;> simp

theorem mem_fill (member : entry ∈ fill before hole last after start stop) :
    entry ∈ before ∨ entry ∈ after ∨
      (8 * hole < start ∧ entry = (hole, start) ∨ stop < last ∧ entry = (stop / 8, last)) := by
  have listed := fill_sublist.subset member
  rw [List.mem_append, List.mem_append] at listed
  exact listed.imp_right fun listed => listed.symm.imp_right mem_remains

theorem fill_ordered (ordered : Ordered (before ++ (hole, last) :: after))
    (forward : start ≤ stop) (reaches : start ≤ last) (overlaps : 8 * hole < stop)
    (room : stop < last → stop % 8 = 0 ∧ stop + 8 ≤ ipMaxudp) :
    Ordered (fill before hole last after start stop) := by
  have proper := ordered.proper (hole, last) (by simp)
  simp only at proper
  have inBuffer : ipMaxudp = 8 * units := rfl
  constructor
  · intro entry member
    rcases mem_fill member with earlier | later | ⟨part, rfl⟩ | ⟨part, rfl⟩
    · exact ordered.proper entry (by simp [earlier])
    · exact ordered.proper entry (by simp [later])
    · exact ⟨proper.1, part⟩
    · have whole := room part
      simp only
      omega
  · refine (Intervals.pairwise_parts ordered.apart ?_ ?_ ?_).sublist fill_sublist
    · rw [remains]
      split_ifs with fromStart covers covers <;> simp
      have whole := room (by omega)
      omega
    · intro part member left
      rcases mem_remains member with ⟨_, rfl⟩ | ⟨more, rfl⟩
      · exact id
      · have whole := room more
        simp only
        omega
    · intro part member right
      rcases mem_remains member with ⟨_, rfl⟩ | ⟨_, rfl⟩
      · exact reaches.trans
      · exact id

theorem fixHoles_fills (linked : Linked defrag (before ++ (hole, last) :: after))
    (overlaps : 8 * hole < 8 * offset + len) (inRange : 8 * offset < 65536)
    (room : 8 * offset + len < last → len % 8 = 0 ∧ 8 * offset + len + 8 ≤ ipMaxudp)
    (touches : ∀ entry ∈ before ++ (hole, last) :: after, entry.1 ∈ touched)
    (touchesNew : 8 * offset + len < last → (8 * offset + len) / 8 ∈ touched) :
    ∃ changed, fixHoles hole offset len defrag =
        .ok (changed, decide (fill before hole last after (8 * offset) (8 * offset + len) = [])) ∧
      Filled defrag changed touched
        (fill before hole last after (8 * offset) (8 * offset + len)) := by
  have around := linked.surrounded
  have touchesHole : hole ∈ touched := touches (hole, last) (by simp)
  have touchesOthers : ∀ entry ∈ before ++ after, entry.1 ∈ touched := by
    intro entry member
    apply touches
    rw [List.mem_append] at member ⊢
    rw [List.mem_cons]
    tauto
  have above := (Ordered.cons_iff.mp (Ordered.append_iff.mp linked.ordered).2.1).2.1
  rw [fixHoles, (loadHole_eq _ around.inside).1, Exec.ok_bind, around.content, fill]
  by_cases covers : last ≤ 8 * offset + len
  · rw [if_pos (by exact_mod_cast covers), if_pos covers]
    by_cases fromStart : offset ≤ hole
    · rw [if_pos fromStart, if_pos (by omega)]
      exact removeHole_fills around touchesOthers
    · rw [if_neg fromStart, if_neg (by omega)]
      obtain ⟨buffer, stored, filled⟩ := storeLastByte_fills around inRange
      rw [stored, decide_eq_false (by simp)]
      exact ⟨_, rfl, { filled with confined := filled.confined.of_mem touchesHole }⟩
  · have more : 8 * offset + len < last := by omega
    obtain ⟨whole, fits⟩ := room more
    have number : ((offset : Int) + (len : Int).tdiv 8).toNat = (8 * offset + len) / 8 := by
      rw [Int.tdiv_eq_ediv_of_nonneg (Int.natCast_nonneg len)]
      omega
    have inside : (8 * offset + len) / 8 < units := by
      simp only [units, ipMaxudp, ipPktsize, ipHdrSize] at fits ⊢
      omega
    have later : hole < (8 * offset + len) / 8 := by omega
    have earlier : ∀ entry ∈ after, (8 * offset + len) / 8 < entry.1 := by
      intro entry member
      have upper := above entry member
      simp only at upper
      omega
    rw [if_neg (by exact_mod_cast covers), if_neg covers, number]
    by_cases fromStart : offset ≤ hole
    · rw [if_pos fromStart, if_pos (by omega), decide_eq_false (by simp)]
      obtain ⟨changed, moves, filled⟩ :=
        moveHole_fills around inside later earlier touchesOthers (touchesNew more)
      rw [moves]
      exact ⟨changed, rfl, filled⟩
    · rw [if_neg fromStart, if_neg (by omega), decide_eq_false (by simp)]
      obtain ⟨changed, splits, filled⟩ :=
        splitHole_fills around inside later earlier inRange touchesOthers (touchesNew more)
          touchesHole
      rw [splits]
      exact ⟨changed, rfl, filled⟩

theorem fill_clear (ordered : Ordered (before ++ (hole, last) :: after))
    (passed : ∀ other ∈ before, other.2 < 8 * offset)
    (clear : ∀ entry ∈ after, stop ≤ 8 * entry.1)
    (room : stop < last → stop % 8 = 0) :
    ∀ entry ∈ fill before hole last after (8 * offset) stop,
      8 * entry.1 + 8 ≤ 8 * offset ∨ stop ≤ 8 * entry.1 := by
  intro entry member
  rcases mem_fill member with earlier | later | ⟨part, rfl⟩ | ⟨part, rfl⟩
  · have proper := (ordered.proper entry (by simp [earlier])).2
    have short := passed entry earlier
    omega
  · exact .inr (clear entry later)
  · simp only
    omega
  · have whole := room part
    simp only
    omega

end

/-! ## Placing the fragment -/

/-- The end of a hole that a fragment meets, as it is when the fragment is taken
out of it. -/
def truncatedLast (ip : List UInt8) (last : Nat) : Nat :=
  if moreFragments ip then last else fragStop ip

/-- What a fragment that meets a hole does to the buffer. Places are counted from
the start of the payload. -/
structure Placed (ip : List UInt8) (defrag changed : Defrag) (holes left : List (Nat × Nat)) :
    Prop where
  linked : left ≠ [] → Linked changed left
  totalLen : changed.totalLen = if moreFragments ip then defrag.totalLen else fragStop ip
  payload : ∀ index, index < payloadLen ip →
    changed.pktBuff (ipHdrSize + (fragStart ip + index)) = (ip.drop ipHdrSize).getD index 0
  others : ∀ place, (∀ entry ∈ holes ++ left, place < 8 * entry.1 ∨ 8 * entry.1 + 8 ≤ place) →
    place < fragStart ip ∨ fragStop ip ≤ place →
      changed.pktBuff (ipHdrSize + place) = defrag.pktBuff (ipHdrSize + place)
  header : ∀ place, place < ipHdrSize → place ≠ 2 → place ≠ 3 →
    changed.pktBuff place = defrag.pktBuff place

variable {holes left : List (Nat × Nat)}

section

variable {ip : List UInt8} {defrag : Defrag} {before after : List (Nat × Nat)} {hole last : Nat}

theorem truncateHole_links (linked : Linked defrag (before ++ (hole, last) :: after))
    (overlaps : 8 * hole < fragStop ip) (inside : fragStop ip ≤ ipMaxudp)
    (clear : ∀ entry ∈ after, fragStop ip ≤ 8 * entry.1) :
    ∃ truncated, truncateHole ip hole (fragStop ip) defrag = .ok truncated ∧
      Linked truncated (before ++ (hole, truncatedLast ip last) :: after) ∧
      truncated.totalLen = (if moreFragments ip then defrag.totalLen else fragStop ip) ∧
      Confined [hole] defrag.pktBuff truncated.pktBuff := by
  rw [truncateHole, truncatedLast]
  cases more : moreFragments ip with
  | true => exact ⟨defrag, rfl, linked, rfl, .refl _⟩
  | false =>
    have inRange : fragStop ip < 65536 := inside.trans_lt (by decide)
    obtain ⟨buffer, stored, filled⟩ := storeLastByte_fills linked.surrounded inRange
    obtain ⟨orderedBefore, orderedRest, between⟩ := Ordered.append_iff.mp linked.ordered
    obtain ⟨proper, _, orderedAfter⟩ := Ordered.cons_iff.mp orderedRest
    have same : ((fragStop ip : Int)).toNat = fragStop ip := Int.toNat_natCast _
    rw [if_neg (by simp), same, stored]
    refine ⟨{ defrag with pktBuff := buffer, totalLen := fragStop ip }, rfl, ?_, rfl,
      filled.confined⟩
    have some : before ++ (hole, fragStop ip) :: after ≠ [] := by simp
    refine ⟨some, filled.first some, filled.segment some, ?_⟩
    refine Ordered.append_iff.mpr ⟨orderedBefore,
      Ordered.cons_iff.mpr ⟨⟨proper.1, overlaps⟩, clear, orderedAfter⟩, ?_⟩
    intro left leftMember right rightMember
    rcases List.mem_cons.mp rightMember with rfl | rightMember
    · exact between left leftMember (hole, last) List.mem_cons_self
    · exact between left leftMember right (List.mem_cons_of_mem _ rightMember)

theorem fragmentLen_eq (header : ipHdrSize ≤ ipLen ip) : fragmentLen ip = payloadLen ip := by
  rw [fragmentLen, payloadLen]
  omega

theorem Filled.linked
    (filled : Filled defrag changed touched holes) (ordered : Ordered holes) (some : holes ≠ []) :
    Linked changed holes :=
  ⟨some, filled.first some, filled.segment some, ordered⟩

theorem Linked.putBytes (linked : Linked defrag holes)
    (clear : ∀ entry ∈ holes, 8 * entry.1 + 8 ≤ start ∨ start + bytes.length ≤ 8 * entry.1) :
    Linked { defrag with pktBuff := putBytes defrag.pktBuff (ipHdrSize + start) bytes } holes := by
  refine { linked with segment := linked.segment.congr ?_ }
  intro entry member
  apply holeAt_congr
  intro place low high
  apply putBytes_of_outside
  have apart := clear entry member
  omega

structure Meets (ip : List UInt8) (before : List (Nat × Nat)) (hole last : Nat)
    (after : List (Nat × Nat)) : Prop where
  passed : ∀ other ∈ before, other.2 < fragStart ip
  reaches : fragStart ip ≤ last
  overlaps : 8 * hole < fragStop ip
  clear : ∀ entry ∈ after, fragStop ip ≤ 8 * entry.1
  room : fragStop ip < truncatedLast ip last → payloadLen ip % 8 = 0 ∧ fragStop ip + 8 ≤ ipMaxudp

def holesLeft (ip : List UInt8) (before : List (Nat × Nat)) (hole last : Nat)
    (after : List (Nat × Nat)) : List (Nat × Nat) :=
  fill before hole (truncatedLast ip last) after (fragStart ip) (fragStop ip)

theorem Fitting.meets (fits : Fitting ip holes)
    (cut : Cut holes before hole last after (fragStart ip)) (overlaps : 8 * hole < fragStop ip) :
    Meets ip before hole last after := by
  obtain ⟨rfl, passed, reaches⟩ := cut
  refine ⟨passed, reaches, overlaps, fun entry member => ?_, fun more => ?_⟩
  · have later := (List.pairwise_append.mp fits.single).2.1
    exact (List.pairwise_cons.mp later).1 entry member reaches
  · rw [truncatedLast] at more
    split at more
    · rename_i flag
      exact fits.whole flag
    · omega

theorem fragStart_le_fragStop (ip : List UInt8) : fragStart ip ≤ fragStop ip :=
  Nat.le_add_right _ _

theorem Meets.stop_whole (meets : Meets ip before hole last after)
    (more : fragStop ip < truncatedLast ip last) :
    fragStop ip % 8 = 0 ∧ fragStop ip + 8 ≤ ipMaxudp := by
  obtain ⟨whole, fit⟩ := meets.room more
  refine ⟨?_, fit⟩
  rw [fragStop, fragStart] at *
  omega

theorem Meets.left_ordered (meets : Meets ip before hole last after)
    (ordered : Ordered (before ++ (hole, truncatedLast ip last) :: after)) :
    Ordered (holesLeft ip before hole last after) := by
  apply fill_ordered ordered (fragStart_le_fragStop ip) _ meets.overlaps meets.stop_whole
  rw [truncatedLast]
  split
  · exact meets.reaches
  · exact fragStart_le_fragStop ip

theorem Meets.left_clear (meets : Meets ip before hole last after)
    (ordered : Ordered (before ++ (hole, truncatedLast ip last) :: after)) :
    ∀ entry ∈ holesLeft ip before hole last after,
      8 * entry.1 + 8 ≤ fragStart ip ∨ fragStop ip ≤ 8 * entry.1 :=
  fill_clear ordered meets.passed meets.clear fun more => (meets.stop_whole more).1

def touchedHoles (holes left : List (Nat × Nat)) : List Nat := (holes ++ left).map Prod.fst

theorem mem_touchedHoles (entry : Nat × Nat) (member : entry ∈ holes ∨ entry ∈ left) :
    entry.1 ∈ touchedHoles holes left :=
  List.mem_map_of_mem (List.mem_append.mpr member)

theorem fill_stop_mem (before after : List (Nat × Nat)) (hole : Nat) (start : Nat)
    (more : stop < last) :
    ∃ entry ∈ fill before hole last after start stop, entry.1 = stop / 8 := by
  rw [fill, if_neg (by omega)]
  split
  · exact ⟨(stop / 8, last), by simp, rfl⟩
  · exact ⟨(stop / 8, last), by simp, rfl⟩

theorem fixHoles_holesLeft (meets : Meets ip before hole last after)
    (inside : fragStop ip ≤ ipMaxudp)
    (linked : Linked truncated (before ++ (hole, truncatedLast ip last) :: after)) :
    ∃ changed, fixHoles hole (offset8 ip) (payloadLen ip) truncated =
        .ok (changed, decide (holesLeft ip before hole last after = [])) ∧
      Filled truncated changed
        (touchedHoles (before ++ (hole, last) :: after) (holesLeft ip before hole last after))
        (holesLeft ip before hole last after) := by
  have inRange : 8 * offset8 ip < 65536 :=
    ((fragStart_le_fragStop ip).trans inside).trans_lt (by decide)
  apply fixHoles_fills linked meets.overlaps inRange meets.room
  · intro entry member
    rcases List.mem_append.mp member with member | member
    · exact mem_touchedHoles entry (.inl (List.mem_append_left _ member))
    · rcases List.mem_cons.mp member with rfl | member
      · exact mem_touchedHoles (hole, last) (.inl (by simp))
      · exact mem_touchedHoles entry
          (.inl (List.mem_append_right _ (List.mem_cons_of_mem _ member)))
  · intro more
    obtain ⟨entry, member, number⟩ := fill_stop_mem before after hole (fragStart ip) more
    have touched : entry.1 ∈ touchedHoles (before ++ (hole, last) :: after)
        (holesLeft ip before hole last after) := mem_touchedHoles entry (.inr member)
    rwa [number] at touched

theorem Filled.placed (filled : Filled truncated fixed (touchedHoles holes left) left)
    (confined : Confined (touchedHoles holes left) defrag.pktBuff truncated.pktBuff)
    (total : truncated.totalLen = if moreFragments ip then defrag.totalLen else fragStop ip)
    (ordered : Ordered left)
    (clear : ∀ entry ∈ left, 8 * entry.1 + 8 ≤ fragStart ip ∨ fragStop ip ≤ 8 * entry.1)
    (available : payloadLen ip ≤ (ip.drop ipHdrSize).length) :
    Placed ip defrag
      { fixed with
        pktBuff := putBytes fixed.pktBuff (ipHdrSize + fragStart ip)
          ((ip.drop ipHdrSize).take (payloadLen ip)) } holes left := by
  have length : ((ip.drop ipHdrSize).take (payloadLen ip)).length = payloadLen ip := by
    rw [List.length_take, Nat.min_eq_left available]
  have unchanged : Confined (touchedHoles holes left) defrag.pktBuff fixed.pktBuff :=
    confined.trans filled.confined
  refine ⟨fun some => ?_, filled.totalLen.trans total, ?_, ?_, ?_⟩
  · apply (filled.linked ordered some).putBytes
    rw [length]
    exact clear
  · intro index less
    rw [← Nat.add_assoc, List.getD_eq_getElem _ _ (less.trans_le available)]
    exact (putBytes_of_inside (by rwa [length])).trans (List.getElem_take ..)
  · intro place outside apart
    apply (putBytes_of_outside (by rw [length]; rw [fragStop] at apart; omega)).trans
    apply unchanged
    intro number member
    obtain ⟨entry, entryMember, rfl⟩ := List.mem_map.mp member
    have away := outside entry entryMember
    omega
  · intro place small _ _
    apply (putBytes_of_outside (by omega)).trans
    apply unchanged
    intro number _
    omega

theorem Placed.withLength (placed : Placed ip defrag changed holes []) (two : field.length = 2) :
    Placed ip defrag { changed with pktBuff := putBytes changed.pktBuff 2 field } holes [] := by
  have kept (place : Nat) (other : place ≠ 2 ∧ place ≠ 3) :
      putBytes changed.pktBuff 2 field place = changed.pktBuff place :=
    putBytes_of_outside (by omega)
  refine ⟨fun some => absurd rfl some, placed.totalLen, ?_, ?_, ?_⟩
  · intro index less
    exact (kept _ (by simp only [ipHdrSize]; omega)).trans (placed.payload index less)
  · intro place outside apart
    exact (kept _ (by simp only [ipHdrSize]; omega)).trans (placed.others place outside apart)
  · intro place small notTwo notThree
    exact (kept place ⟨notTwo, notThree⟩).trans (placed.header place small notTwo notThree)

theorem fragStop_cast (header : ipHdrSize ≤ ipLen ip) :
    ((8 * offset8 ip : Nat) : Int) + fragmentLen ip = (fragStop ip : Nat) := by
  rw [fragmentLen_eq header, fragStop, fragStart, Nat.cast_add]

theorem extendsTooFar_iff (header : ipHdrSize ≤ ipLen ip) :
    extendsTooFar ip = true ↔ ipMaxudp < fragStop ip := by
  have sum := fragStop_cast header
  simp only [extendsTooFar, Bool.or_eq_true, decide_eq_true_eq]
  omega

theorem copyLength_eq (header : ipHdrSize ≤ ipLen ip) (inside : fragStop ip ≤ ipMaxudp) :
    (fragmentLen ip % 2 ^ 32).toNat = payloadLen ip := by
  have small : payloadLen ip < 2 ^ 32 := by
    have less : payloadLen ip ≤ ipMaxudp := (Nat.le_add_left _ _).trans inside
    exact less.trans_lt (by decide)
  rw [fragmentLen_eq header]
  omega

theorem copyPayload_eq (inside : fragStop ip ≤ ipMaxudp)
    (source : payloadLen ip ≤ (ip.drop ipHdrSize).length) :
    copyBytes ipPktsize buffer (ipHdrSize + 8 * offset8 ip) (ip.drop ipHdrSize) (payloadLen ip) =
      .ok (putBytes buffer (ipHdrSize + fragStart ip)
        ((ip.drop ipHdrSize).take (payloadLen ip))) := by
  apply copyBytes_of_inside _ source
  have sum : ipHdrSize + ipMaxudp = ipPktsize := by decide
  rw [fragStop, fragStart] at inside
  omega

theorem placeFragment_places (available : ipLen ip ≤ ip.length) (header : ipHdrSize ≤ ipLen ip)
    (inside : fragStop ip ≤ ipMaxudp) (linked : Linked defrag (before ++ (hole, last) :: after))
    (meets : Meets ip before hole last after) :
    ∃ changed, placeFragment ip hole defrag = .ok (changed,
        if holesLeft ip before hole last after = [] then some (changed.totalLen + ipHdrSize)
        else none) ∧
      Placed ip defrag changed (before ++ (hole, last) :: after)
        (holesLeft ip before hole last after) := by
  obtain ⟨truncated, truncates, linkedTruncated, total, confinedTruncated⟩ :=
    truncateHole_links linked meets.overlaps inside meets.clear
  obtain ⟨fixed, fixes, filled⟩ := fixHoles_holesLeft meets inside linkedTruncated
  have source : payloadLen ip ≤ (ip.drop ipHdrSize).length := by
    rw [List.length_drop, payloadLen]
    omega
  have placed := filled.placed
    (confinedTruncated.of_mem (mem_touchedHoles (hole, last) (.inl (by simp)))) total
    (meets.left_ordered linkedTruncated.ordered) (meets.left_clear linkedTruncated.ordered) source
  rw [placeFragment]
  dsimp only
  rw [fragStop_cast header, truncates, Exec.ok_bind, copyLength_eq header inside,
    fragmentLen_eq header, fixes, Exec.ok_bind]
  simp only [copyPayload_eq inside source, Exec.ok_bind]
  by_cases done : holesLeft ip before hole last after = []
  · rw [decide_eq_true done, if_pos rfl, done]
    rw [done] at placed
    have stores (buffer : Nat → UInt8) (high low : UInt8) :
        copyBytes ipPktsize buffer 2 [high, low] 2 = .ok (putBytes buffer 2 [high, low]) :=
      copyBytes_of_inside (by decide) (by simp)
    rw [stores]
    exact ⟨_, rfl, placed.withLength rfl⟩
  · rw [decide_eq_false done, if_neg (by simp)]
    refine ⟨_, ?_, placed⟩
    rw [if_neg done]
    rfl

theorem startDatagram_starts (fresh : newDatagram ip defrag = true)
    (header : ipHdrSize ≤ ip.length) :
    ∃ started, startDatagram ip defrag = .ok started ∧ Linked started [(0, 0xffff)] ∧
      started.totalLen = 0xffff ∧
      ∀ place, place < ipHdrSize → started.pktBuff place = ip.getD place 0 := by
  have inside : 0 < units := by decide
  obtain ⟨first, storesLast, viewLast, _⟩ :=
    (storeHole_writes defrag.pktBuff inside (by decide : 0xffff < 65536)).1
  obtain ⟨second, storesNext, viewNext, _⟩ :=
    (storeHole_writes first inside (by decide : 0 < 65536)).2.1
  obtain ⟨third, storesPrev, viewPrev, _⟩ :=
    (storeHole_writes second inside (by decide : 0 < 65536)).2.2
  have copies : copyBytes ipPktsize third 0 ip ipHdrSize =
      .ok (putBytes third 0 (ip.take ipHdrSize)) := copyBytes_of_inside (by decide) header
  have length : (ip.take ipHdrSize).length = ipHdrSize := by
    rw [List.length_take, Nat.min_eq_left header]
  have content : holeAt (putBytes third 0 (ip.take ipHdrSize)) 0 = ⟨0xffff, 0, 0⟩ := by
    have same : holeAt (putBytes third 0 (ip.take ipHdrSize)) 0 = holeAt third 0 :=
      holeAt_congr fun place low _ => putBytes_of_outside (by omega)
    rw [same, viewPrev, Function.update_self, viewNext, Function.update_self, viewLast,
      Function.update_self]
  rw [startDatagram, if_pos fresh, storesLast, Exec.ok_bind, storesNext, Exec.ok_bind, storesPrev,
    Exec.ok_bind, copies]
  refine ⟨⟨putBytes third 0 (ip.take ipHdrSize), 0, 0xffff⟩, rfl, ⟨by simp, rfl, ?_, ?_⟩, rfl, ?_⟩
  · exact ⟨by rw [content], by rw [content], by rw [content]; rfl, trivial⟩
  · exact ⟨by simp [units], by simp⟩
  · intro place small
    have taken : place < (ip.take ipHdrSize).length := by rwa [length]
    have stored : putBytes third 0 (ip.take ipHdrSize) (0 + place) = (ip.take ipHdrSize)[place] :=
      putBytes_of_inside taken
    rw [Nat.zero_add, List.getElem_take] at stored
    rw [List.getD_eq_getElem _ _ (small.trans_le header)]
    exact stored

/-- What a call does to a list of holes: the fragment meets none of them, or it is
taken out of the first one that it meets. -/
theorem netDefragmentFragment_cases (available : ipLen ip ≤ ip.length)
    (starts : startDatagram ip defrag = .ok started) (linked : Linked started holes)
    (fits : Fitting ip holes) (inside : fragStop ip ≤ ipMaxudp) :
    (netDefragmentFragment ip defrag = .ok (started, none) ∧
        ((∀ hole ∈ holes, hole.2 < fragStart ip) ∨
          ∃ before hole last after, Cut holes before hole last after (fragStart ip) ∧
            fragStop ip ≤ 8 * hole)) ∨
      ∃ before hole last after changed, Cut holes before hole last after (fragStart ip) ∧
        8 * hole < fragStop ip ∧
        netDefragmentFragment ip defrag = .ok (changed,
          if holesLeft ip before hole last after = [] then some (changed.totalLen + ipHdrSize)
          else none) ∧
        Placed ip started changed holes (holesLeft ip before hole last after) := by
  have notRejected : ¬ extendsTooFar ip = true := by
    rw [extendsTooFar_iff fits.header]
    omega
  have overlap (hole : Nat) : ((offset8 ip : Int) + (fragmentLen ip + 7).tdiv 8 ≤ hole) ↔
      fragStop ip ≤ 8 * hole := by
    rw [fragmentLen_eq fits.header, Int.tdiv_eq_ediv_of_nonneg (by omega), fragStop, fragStart]
    omega
  rw [netDefragmentFragment, if_neg notRejected, starts, Exec.ok_bind]
  rcases findHole_cases (fragStart ip) linked with missing | ⟨before, hole, last, after, cut, finds⟩
  · left
    obtain ⟨finds, passed⟩ := missing
    rw [fragStart] at finds
    rw [finds]
    exact ⟨rfl, .inl passed⟩
  · rw [fragStart] at finds
    rw [finds, Exec.ok_bind]
    dsimp only
    by_cases apart : fragStop ip ≤ 8 * hole
    · left
      rw [if_pos ((overlap hole).mpr apart)]
      exact ⟨rfl, .inr ⟨before, hole, last, after, cut, apart⟩⟩
    · right
      have meets := fits.meets cut (by omega)
      have shape := cut.shape
      subst shape
      obtain ⟨changed, places, placed⟩ :=
        placeFragment_places available fits.header inside linked meets
      rw [if_neg (mt (overlap hole).mp apart), places]
      exact ⟨before, hole, last, after, changed, cut, by omega, rfl, placed⟩

end

end UBootV210.Net
