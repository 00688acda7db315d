import UBootV210.Net.DefragmentStep
import UBootV210.Net.Receive

/-! # Reassembly of arbitrary fragments

Which sequences of fragments keep the accesses of `__NetDefragment` inside the
packet buffer. -/

namespace UBootV210.Net

open StaticBuffer LinkedRecords

/-- The static variables, and whether the packet in the buffer was handed on. -/
structure Reassembly where
  defrag : Defrag
  delivered : Bool

def Reassembly.receive (reassembly : Reassembly) (ip : List UInt8) : Exec Reassembly := do
  let (defrag, complete) ← netDefragmentFragment ip reassembly.defrag
  return ⟨defrag, complete.isSome || (reassembly.delivered &&
    (extendsTooFar ip || !newDatagram ip reassembly.defrag))⟩

/-- The bytes from the IP header on pass the checks of `NetReceive`; behind the
received ones there may be others. -/
def PassesChecks (config : NetConfig) (ip : List UInt8) : Prop :=
  ∃ len : Nat, len ≤ ip.length ∧ acceptsIp config ip len = true

def openHoles (buffer : Nat → UInt8) : Nat → Nat → List (Nat × Nat)
  | 0, _ => []
  | fuel + 1, hole =>
      (hole, (holeAt buffer hole).lastByte) ::
        if (holeAt buffer hole).nextHole = 0 then []
        else openHoles buffer fuel (holeAt buffer hole).nextHole

def holesMet (ip : List UInt8) (defrag : Defrag) : List (Nat × Nat) :=
  if newDatagram ip defrag then [(0, 0xffff)]
  else openHoles defrag.pktBuff walkFuel defrag.firstHole

/-- The fragment is dropped as too long, or it fits into the holes of a packet that
was not handed on. -/
def Admitted (reassembly : Reassembly) (ip : List UInt8) : Prop :=
  extendsTooFar ip = true ∨
    (newDatagram ip reassembly.defrag = true ∨ reassembly.delivered = false) ∧
      Fitting ip (holesMet ip reassembly.defrag)

def AdmittedRun (reassembly : Reassembly) : List (List UInt8) → Prop
  | [] => True
  | ip :: rest => Admitted reassembly ip ∧
      ∀ next, reassembly.receive ip = .ok next → AdmittedRun next rest

/-- The descriptors are intact unless the next fragment starts a packet or the last
one was handed on. -/
def Reassembly.Intact (reassembly : Reassembly) : Prop :=
  reassembly.defrag.totalLen = 0 ∨ reassembly.delivered = true ∨
    ∃ holes, Linked reassembly.defrag holes

variable {holes : List (Nat × Nat)}

theorem openHoles_eq
    (segment : Segment Hole.lastByte Hole.nextHole Hole.prevHole (holeAt buffer) precedes holes 0)
    (ordered : Ordered holes) (nonempty : holes ≠ []) (enough : holes.length ≤ fuel) :
    openHoles buffer fuel (firstOr 0 holes) = holes := by
  induction holes generalizing precedes fuel with
  | nil => exact absurd rfl nonempty
  | cons hole holes induction =>
    obtain ⟨holds, _, after, rest⟩ := segment
    obtain ⟨_, above, orderedRest⟩ := Ordered.cons_iff.mp ordered
    cases fuel with
    | zero => simp at enough
    | succ fuel =>
      rw [firstOr_cons, openHoles, holds, after]
      cases holes with
      | nil => rfl
      | cons second holes =>
        have later := above second List.mem_cons_self
        rw [if_neg (by rw [firstOr_cons]; omega),
          induction rest orderedRest (List.cons_ne_nil _ _) (by simpa using enough)]

theorem Linked.openHoles_eq (linked : Linked defrag holes) :
    openHoles defrag.pktBuff walkFuel defrag.firstHole = holes := by
  rw [linked.first]
  exact Net.openHoles_eq linked.segment linked.ordered linked.nonempty
    (linked.ordered.length_le.trans (by decide))

variable {ip : List UInt8}

theorem PassesChecks.lengths (passes : PassesChecks config ip) :
    ipHdrSize ≤ ip.length ∧ ipLen ip ≤ ip.length := by
  obtain ⟨len, inside, accepted⟩ := passes
  have lengths := acceptsIp_len accepted
  rw [ipUdpHdrSize] at lengths
  rw [ipHdrSize]
  omega

variable {reassembly : Reassembly}

theorem startDatagram_intact (intact : reassembly.Intact) (header : ipHdrSize ≤ ip.length)
    (current : newDatagram ip reassembly.defrag = true ∨ reassembly.delivered = false) :
    ∃ started, startDatagram ip reassembly.defrag = .ok started ∧
      Linked started (holesMet ip reassembly.defrag) := by
  rw [holesMet]
  by_cases fresh : newDatagram ip reassembly.defrag = true
  · obtain ⟨started, starts, linked, _⟩ := startDatagram_starts fresh header
    rw [if_pos fresh]
    exact ⟨started, starts, linked⟩
  · rw [if_neg fresh, startDatagram, if_neg fresh]
    refine ⟨reassembly.defrag, rfl, ?_⟩
    rcases intact with empty | delivered | ⟨holes, linked⟩
    · exact absurd (by rw [newDatagram, empty]; rfl) fresh
    · rcases current with new | open_
      · exact absurd new fresh
      · rw [delivered] at open_
        cases open_
    · rw [linked.openHoles_eq]
      exact linked

theorem Admitted.receive (intact : reassembly.Intact)
    (passes : PassesChecks config ip) (admitted : Admitted reassembly ip) :
    ∃ next, reassembly.receive ip = .ok next ∧ next.Intact := by
  obtain ⟨header, available⟩ := passes.lengths
  rw [Reassembly.receive]
  by_cases dropped : extendsTooFar ip = true
  · rw [netDefragmentFragment, if_pos dropped, Exec.ok_bind]
    refine ⟨_, rfl, ?_⟩
    simpa [Reassembly.Intact, dropped] using intact
  · obtain ⟨current, fits⟩ := admitted.resolve_left dropped
    have inside : fragStop ip ≤ ipMaxudp := by
      rw [extendsTooFar_iff fits.header] at dropped
      omega
    obtain ⟨started, starts, linked⟩ := startDatagram_intact intact header current
    rcases netDefragmentFragment_cases available starts linked fits inside with
      ⟨returns, _⟩ | ⟨before, hole, last, after, changed, _, _, returns, placed⟩
    · rw [returns, Exec.ok_bind]
      exact ⟨_, rfl, .inr (.inr ⟨_, linked⟩)⟩
    · rw [returns, Exec.ok_bind]
      refine ⟨_, rfl, .inr ?_⟩
      by_cases done : holesLeft ip before hole last after = []
      · left
        simp [done]
      · exact .inr ⟨_, placed.linked done⟩

/-- In every sequence of fragments that are admitted one after the other, each call
of `__NetDefragment` returns: it makes no access outside the packet buffer and its
walk over the holes ends. -/
theorem reassembly_inside (config : NetConfig) (fragments : List (List UInt8))
    (reassembly : Reassembly) (booted : reassembly.defrag.totalLen = 0)
    (checked : ∀ ip ∈ fragments, PassesChecks config ip)
    (admitted : AdmittedRun reassembly fragments) :
    ∃ final, fragments.foldlM Reassembly.receive reassembly = .ok final := by
  have intact : reassembly.Intact := .inl booted
  clear booted
  induction fragments generalizing reassembly with
  | nil => exact ⟨reassembly, rfl⟩
  | cons ip rest induction =>
    obtain ⟨next, receives, intactNext⟩ :=
      admitted.1.receive intact (checked ip List.mem_cons_self)
    rw [List.foldlM_cons, receives]
    exact induction next (fun other member => checked other (List.mem_cons_of_mem _ member))
      (admitted.2 next receives) intactNext

def fragmentPacket (length offset8 : UInt8) (checksum : UInt8 × UInt8) : List UInt8 :=
  [0x45, 0, 0, length, 0, 1, 0x20, offset8, 64, 17, checksum.1, checksum.2, 1, 2, 3, 4, 5, 6, 7, 8,
    10, 11, 12, 13, 14, 15, 16, 17]

instance (ip : List UInt8) (holes : List (Nat × Nat)) : Decidable (Fitting ip holes) :=
  decidable_of_iff (ipHdrSize ≤ ipLen ip ∧
      (moreFragments ip = true → payloadLen ip % 8 = 0 ∧ fragStop ip + 8 ≤ ipMaxudp) ∧
      holes.Pairwise fun left right => fragStart ip ≤ left.2 → fragStop ip ≤ 8 * right.1)
    ⟨fun ⟨header, whole, single⟩ => ⟨header, whole, single⟩,
      fun fits => ⟨fits.header, fits.whole, fits.single⟩⟩

instance (reassembly : Reassembly) (ip : List UInt8) : Decidable (Admitted reassembly ip) :=
  inferInstanceAs (Decidable (_ ∨ _ ∧ _))

theorem admittedRun_cons_iff (received : reassembly.receive ip = .ok next) :
    AdmittedRun reassembly (ip :: rest) ↔ Admitted reassembly ip ∧ AdmittedRun next rest := by
  refine and_congr_right' ⟨fun run => run next received, fun run other again => ?_⟩
  cases received.symm.trans again
  exact run

instance decidableAdmittedRun :
    (reassembly : Reassembly) → (fragments : List (List UInt8)) →
      Decidable (AdmittedRun reassembly fragments)
  | _, [] => isTrue trivial
  | reassembly, ip :: rest =>
      match received : reassembly.receive ip with
      | .error _ =>
          decidable_of_iff (Admitted reassembly ip)
            ⟨fun admitted => ⟨admitted, fun _ other => by cases received.symm.trans other⟩,
              And.left⟩
      | .ok next =>
          have := decidableAdmittedRun next rest
          decidable_of_iff _ (admittedRun_cons_iff received).symm

/-- The third of three fragments closes the hole between the first two. -/
theorem reassembly_inside_first :
    ∃ final, [fragmentPacket 28 0 (0x4a, 0xbd), fragmentPacket 28 2 (0x4a, 0xbb),
        fragmentPacket 28 1 (0x4a, 0xbc)].foldlM Reassembly.receive ⟨bootDefrag, false⟩ =
      .ok final := by
  apply reassembly_inside exampleConfig _ _ rfl
  · intro ip member
    simp only [List.mem_cons, List.not_mem_nil, or_false] at member
    rcases member with rfl | rfl | rfl
    · exact ⟨28, by decide, by decide +kernel⟩
    · exact ⟨28, by decide, by decide +kernel⟩
    · exact ⟨28, by decide, by decide +kernel⟩
  · decide +kernel

/-- A header that says that the packet is shorter than the header itself passes the
checks, and the number of bytes to copy becomes a huge one. -/
theorem short_fragment_overruns : PassesChecks exampleConfig (fragmentPacket 0 3 (0x4a, 0xd6)) ∧
      netDefragmentFragment (fragmentPacket 0 3 (0x4a, 0xd6)) bootDefrag = .error .outOfBounds := by
  exact ⟨⟨28, by decide, by decide +kernel⟩, rfl⟩

end UBootV210.Net
