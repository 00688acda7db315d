import UBootV210.Net.DefragmentOrder
import UBootV210.Net.Receive

/-! # Reassembly in any order

Runs of `__NetDefragment` over the pieces of a datagram. -/

namespace UBootV210.Net

open StaticBuffer LinkedRecords Intervals

/-- Every piece arrives while one is missing, and none starts the second hole while
the first one starts with the payload. -/
def AdmittedArrivals (split : Split) (arrived : List Nat) : List Nat → Prop
  | [] => True
  | index :: rest =>
      (∃ other, other < split.count ∧ other ∉ arrived) ∧ ¬ StartsSecondHole arrived index ∧
        AdmittedArrivals split (index :: arrived) rest

def deliver (defrag : Defrag) (packets : List (List UInt8)) : Exec Defrag :=
  packets.foldlM (fun defrag ip => (netDefragmentFragment ip defrag).map Prod.fst) defrag

def Ready (split : Split) (id : Nat) (arrived : List Nat) (defrag : Defrag) : Prop :=
  (arrived = [] ∧ (defrag.totalLen = 0 ∨ defrag.localId ≠ id)) ∨
    (∃ holes, Tracks split id arrived defrag holes) ∨
    ∀ other, other < split.count → other ∈ arrived

section

variable {split : Split} {id index : Nat} {ip : List UInt8} {arrived : List Nat} {defrag : Defrag}

theorem Split.IsFragment.starts (fragment : split.IsFragment id index ip)
    (fresh : defrag.totalLen = 0 ∨ defrag.localId ≠ id) :
    ∃ started, startDatagram ip defrag = .ok started ∧
      Tracks split id [] started [(0, 0xffff)] := by
  have new : newDatagram ip defrag = true := by
    rw [newDatagram, fragment.ident, Bool.or_eq_true, beq_iff_eq, bne_iff_ne]
    exact fresh
  have header : ipHdrSize ≤ ip.length := fragment.header.trans fragment.available
  obtain ⟨started, starts, linked, total, copied⟩ := startDatagram_starts new header
  refine ⟨started, starts, ⟨⟨?_, ?_, ?_, ?_⟩, linked, ⟨?_, ?_, ?_⟩⟩⟩
  · intro place inside present
    exact absurd (Split.missing_nil.mpr (inside.trans Split.total_lt)) present
  · rw [Defrag.localId, copied 4 (by decide), copied 5 (by decide), ← fragment.ident]
    rfl
  · rw [total]
    rfl
  · intro other member
    cases member
  · exact List.pairwise_singleton _ _
  · intro place
    rw [Split.missing_nil, covers_cons, covers_nil, or_false]
    simp [holeStart, holeStop]
  · intro hole member
    rw [List.mem_singleton] at member
    subst member
    exact .inr rfl

theorem Ready.receive (nonempty : ∀ piece ∈ split.pieces, piece ≠ [])
    (ready : Ready split id arrived defrag)
    (incomplete : ∃ other, other < split.count ∧ other ∉ arrived)
    (notSecond : ¬ StartsSecondHole arrived index) (fragment : split.IsFragment id index ip) :
    ∃ changed result, netDefragmentFragment ip defrag = .ok (changed, result) ∧
      Received split id index arrived changed result := by
  rcases ready with ⟨none, fresh⟩ | ⟨holes, tracks⟩ | complete
  · subst none
    obtain ⟨started, starts, tracks⟩ := fragment.starts fresh
    exact tracks.receive nonempty starts fragment notSecond
  · have current : newDatagram ip defrag = false := by
      have positive := (Nat.zero_le _).trans_lt
        (Split.start_lt_total nonempty (List.length_pos_of_ne_nil split.some))
      have nonzero : defrag.totalLen ≠ 0 := by
        rw [tracks.totalLen]
        split_ifs
        · omega
        · decide
      rw [newDatagram, tracks.localId, fragment.ident, bne_self_eq_false, Bool.or_false,
        beq_eq_false_iff_ne]
      exact nonzero
    have starts : startDatagram ip defrag = .ok defrag := by
      rw [startDatagram, if_neg (by rw [current]; decide)]
    exact tracks.receive nonempty starts fragment notSecond
  · obtain ⟨other, inside, absent⟩ := incomplete
    exact absurd (complete other inside) absent

theorem Ready.deliver (nonempty : ∀ piece ∈ split.pieces, piece ≠ [])
    {arrivals : List (Nat × List UInt8)} (ready : Ready split id arrived defrag)
    (fragments : ∀ arrival ∈ arrivals, split.IsFragment id arrival.1 arrival.2)
    (admitted : AdmittedArrivals split arrived (arrivals.map Prod.fst)) :
    ∃ state, Net.deliver defrag (arrivals.map Prod.snd) = .ok state ∧
      Ready split id ((arrivals.map Prod.fst).reverse ++ arrived) state := by
  induction arrivals generalizing arrived defrag with
  | nil => exact ⟨defrag, rfl, ready⟩
  | cons arrival arrivals induction =>
    obtain ⟨incomplete, notSecond, later⟩ := admitted
    obtain ⟨changed, result, returns, outcome⟩ := ready.receive nonempty incomplete notSecond
      (fragments arrival List.mem_cons_self)
    have readyNext : Ready split id (arrival.1 :: arrived) changed := by
      rcases outcome with ⟨_, tracks⟩ | ⟨_, _, complete⟩
      · exact .inr (.inl tracks)
      · exact .inr (.inr complete)
    obtain ⟨state, delivers, readyState⟩ := induction readyNext
      (fun other member => fragments other (List.mem_cons_of_mem _ member)) later
    refine ⟨state, ?_, ?_⟩
    · rw [Net.deliver, List.map_cons, List.foldlM_cons, returns]
      exact delivers
    · rwa [List.map_cons, List.reverse_cons, List.append_assoc]

theorem AdmittedArrivals.append (admitted : AdmittedArrivals split arrived (first ++ second)) :
    AdmittedArrivals split arrived first ∧
      AdmittedArrivals split (first.reverse ++ arrived) second := by
  induction first generalizing arrived with
  | nil => exact ⟨trivial, admitted⟩
  | cons index first induction =>
    obtain ⟨incomplete, notSecond, later⟩ := admitted
    obtain ⟨front, back⟩ := induction later
    refine ⟨⟨incomplete, notSecond, front⟩, ?_⟩
    rwa [List.reverse_cons, List.append_assoc]

theorem Stores.slice_eq (stores : Stores split id arrived defrag)
    (complete : ∀ other, other < split.count → other ∈ arrived) :
    slice defrag.pktBuff ipHdrSize split.total = split.pieces.flatten := by
  apply slice_eq_of_forall
  intro place inside
  rw [stores.payload place inside, List.getD_eq_getElem _ _ inside]
  intro missing
  obtain ⟨other, known, fills⟩ := Split.exists_filling missing.1
  exact missing.2 other (complete other known) fills

end

/-- In every sequence of admitted arrivals of the pieces of a datagram, a call returns
a packet exactly if the last missing piece has arrived, and the packet is then the
header and the payload. -/
theorem reassembly_any_order (split : Split) (nonempty : ∀ piece ∈ split.pieces, piece ≠ [])
    (id : Nat) (defrag : Defrag) (fresh : defrag.totalLen = 0 ∨ defrag.localId ≠ id)
    (before : List (Nat × List UInt8)) (index : Nat) (ip : List UInt8)
    (fragments : ∀ arrival ∈ before ++ [(index, ip)], split.IsFragment id arrival.1 arrival.2)
    (admitted : AdmittedArrivals split [] ((before ++ [(index, ip)]).map Prod.fst)) :
    ∃ state changed result, deliver defrag (before.map Prod.snd) = .ok state ∧
      netDefragmentFragment ip state = .ok (changed, result) ∧
      (result.isSome ↔ ∀ other, other < split.count → other ∈ before.map Prod.fst ∨ other = index) ∧
      ∀ count, result = some count → count = ipHdrSize + split.total ∧
        slice changed.pktBuff ipHdrSize split.total = split.pieces.flatten := by
  rw [List.map_append] at admitted
  obtain ⟨front, incomplete, notSecond, _⟩ := admitted.append
  have ready : Ready split id [] defrag := .inl ⟨rfl, fresh⟩
  obtain ⟨state, delivers, readyState⟩ := ready.deliver nonempty
    (fun arrival member => fragments arrival (List.mem_append_left _ member)) front
  obtain ⟨changed, result, returns, outcome⟩ := readyState.receive nonempty incomplete notSecond
    (fragments (index, ip) (by simp))
  have mem_iff (other : Nat) : other ∈ index :: ((before.map Prod.fst).reverse ++ []) ↔
      other ∈ before.map Prod.fst ∨ other = index := by
    rw [List.append_nil, List.mem_cons, List.mem_reverse, or_comm]
  refine ⟨state, changed, result, delivers, returns, ?_⟩
  rcases outcome with ⟨rfl, left, tracks⟩ | ⟨rfl, stores, complete⟩
  · obtain ⟨other, inside, absent⟩ := tracks.incomplete
    rw [mem_iff] at absent
    refine ⟨iff_of_false (by simp) fun all => absent (all other inside), fun count equal => ?_⟩
    cases equal
  · refine ⟨iff_of_true rfl fun other inside => (mem_iff other).mp (complete other inside), ?_⟩
    intro count equal
    cases equal
    refine ⟨?_, stores.slice_eq complete⟩
    have positive : 0 < split.count := List.length_pos_of_ne_nil split.some
    rw [stores.totalLen, if_pos (complete _ (by omega)), Nat.add_comm]

def threePieces : Split where
  pieces := [List.replicate 8 1, List.replicate 8 2, List.replicate 8 3]
  some := by decide
  aligned := by
    intro index inside
    have cases : index = 0 ∨ index = 1 := by simp at inside; omega
    rcases cases with rfl | rfl <;> rfl
  fits := by decide

def threePacket (flags offset8 byte : UInt8) : List UInt8 :=
  [0x45, 0, 0, 28, 0, 1, flags, offset8, 64, 17, 0, 0, 1, 2, 3, 4, 5, 6, 7, 8] ++
    List.replicate 8 byte

theorem threePacket_isFragment : threePieces.IsFragment 1 0 (threePacket 0x20 0 1) ∧
      threePieces.IsFragment 1 1 (threePacket 0x20 1 2) ∧
      threePieces.IsFragment 1 2 (threePacket 0 2 3) :=
  ⟨⟨by decide, by decide, rfl, rfl, rfl, rfl, rfl⟩, ⟨by decide, by decide, rfl, rfl, rfl, rfl, rfl⟩,
    by decide, by decide, rfl, rfl, rfl, rfl, rfl⟩

/-- The last piece, the first one and then the one between them. -/
theorem reassembly_any_order_three : ∃ state changed result,
      deliver bootDefrag [threePacket 0 2 3, threePacket 0x20 0 1] = .ok state ∧
      netDefragmentFragment (threePacket 0x20 1 2) state = .ok (changed, result) ∧
      (result.isSome ↔ ∀ other, other < threePieces.count → other ∈ [2, 0] ∨ other = 1) ∧
      ∀ count, result = some count → count = ipHdrSize + threePieces.total ∧
        slice changed.pktBuff ipHdrSize threePieces.total = threePieces.pieces.flatten := by
  obtain ⟨first, second, third⟩ := threePacket_isFragment
  apply reassembly_any_order threePieces (by decide) 1 bootDefrag (.inl rfl)
    [(2, threePacket 0 2 3), (0, threePacket 0x20 0 1)] 1 (threePacket 0x20 1 2)
  · simp [first, second, third]
  · refine ⟨⟨0, by decide, by decide⟩, ?_, ⟨1, by decide, by decide⟩, ?_, ⟨1, by decide, by decide⟩,
      ?_, trivial⟩
    · rintro ⟨_, first, positive, less, _, between⟩
      exact absurd (between first le_rfl less) (by simp)
    · rintro ⟨_, first, positive, less, _⟩
      omega
    · rintro ⟨_, first, positive, less, _⟩
      omega

/-- The second piece and then the third one: a packet is returned without the first. -/
theorem third_piece_completes : threePieces.IsFragment 1 1 (threePacket 0x20 1 2) ∧
      threePieces.IsFragment 1 2 (threePacket 0 2 3) ∧
      ((deliver bootDefrag [threePacket 0x20 1 2] >>=
        netDefragmentFragment (threePacket 0 2 3)).map Prod.snd) = .ok (some 44) :=
  ⟨threePacket_isFragment.2.1, threePacket_isFragment.2.2, rfl⟩

end UBootV210.Net
