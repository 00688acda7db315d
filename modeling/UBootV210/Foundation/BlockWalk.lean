import Mathlib

/-! # Walking through blocks and skipping some of them

A number of addresses is taken from a start address on. Blocks that are to be
skipped contribute no addresses. -/

namespace UBootV210

def blockEnd (size start : Nat) : Nat := (start / size + 1) * size

/-- A walk from `start` that takes `left` addresses, as the list of the pieces
that it takes, and ends at `stop`. -/
inductive BlockWalk (size : Nat) (skipped : Nat → Prop) :
    Nat → Nat → List (Nat × Nat) → Nat → Prop
  | nil (start : Nat) : BlockWalk size skipped start 0 [] start
  | skip {start left stop : Nat} {pieces : List (Nat × Nat)} :
      0 < left → skipped (start / size) →
      BlockWalk size skipped (blockEnd size start) left pieces stop →
      BlockWalk size skipped start left pieces stop
  | last {start left : Nat} :
      0 < left → ¬ skipped (start / size) → left ≤ blockEnd size start - start →
      BlockWalk size skipped start left [(start, left)] (start + left)
  | take {start left stop : Nat} {pieces : List (Nat × Nat)} :
      ¬ skipped (start / size) → blockEnd size start - start < left →
      BlockWalk size skipped (blockEnd size start) (left - (blockEnd size start - start))
        pieces stop →
      BlockWalk size skipped start left ((start, blockEnd size start - start) :: pieces) stop

def pieceAddresses (pieces : List (Nat × Nat)) : List Nat :=
  pieces.flatMap fun piece => List.range' piece.1 piece.2

@[simp] theorem pieceAddresses_nil : pieceAddresses [] = [] := rfl

@[simp] theorem pieceAddresses_cons (start length : Nat) (pieces : List (Nat × Nat)) :
    pieceAddresses ((start, length) :: pieces) =
      List.range' start length ++ pieceAddresses pieces := rfl

theorem blockEnd_mod (size start : Nat) : blockEnd size start % size = 0 := by
  rw [blockEnd, Nat.mul_mod_left]

section

variable {size start : Nat} (positive : 0 < size)
include positive

theorem lt_blockEnd : start < blockEnd size start := by
  have split := Nat.div_add_mod start size
  have bound := Nat.mod_lt start positive
  rw [blockEnd, Nat.add_mul, Nat.mul_comm]
  omega

theorem blockEnd_div : blockEnd size start / size = start / size + 1 := by
  rw [blockEnd, Nat.mul_div_cancel _ positive]

theorem div_eq_of_lt_blockEnd (lower : start ≤ address)
    (upper : address < blockEnd size start) : address / size = start / size := by
  apply Nat.le_antisymm
  · exact Nat.lt_succ_iff.mp ((Nat.div_lt_iff_lt_mul positive).mpr upper)
  · exact Nat.div_le_div_right lower

end

variable {block : Nat} {other : Nat → Prop} {pieces' : List (Nat × Nat)}

namespace BlockWalk

variable {size start left stop : Nat} {skipped : Nat → Prop} {pieces : List (Nat × Nat)}

theorem length_addresses (walk : BlockWalk size skipped start left pieces stop) :
    (pieceAddresses pieces).length = left := by
  induction walk with
  | nil => rfl
  | skip _ _ _ induction => exact induction
  | last => simp
  | take _ room _ induction =>
    rw [pieceAddresses_cons, List.length_append, List.length_range']
    omega

theorem start_le_stop (positive : 0 < size)
    (walk : BlockWalk size skipped start left pieces stop) : start + left ≤ stop := by
  induction walk with
  | nil => exact Nat.le_refl _
  | @skip start _ _ _ _ _ _ induction =>
    have lower := @lt_blockEnd size start positive
    omega
  | last => exact Nat.le_refl _
  | @take start _ _ _ _ _ _ induction =>
    have lower := @lt_blockEnd size start positive
    omega

theorem eq_nil_of_zero (walk : BlockWalk size skipped start 0 pieces stop) :
    pieces = [] ∧ stop = start := by
  cases walk with
  | nil => exact ⟨rfl, rfl⟩
  | skip nonempty => exact absurd nonempty (Nat.lt_irrefl 0)
  | last nonempty => exact absurd nonempty (Nat.lt_irrefl 0)
  | take _ room => exact absurd room (Nat.not_lt_zero _)

theorem lt_stop_iff (positive : 0 < size) (walk : BlockWalk size skipped start left pieces stop) :
    start < stop ↔ 0 < left := by
  have reach := walk.start_le_stop positive
  refine ⟨fun later => ?_, fun more => by omega⟩
  by_contra empty
  rw [Nat.eq_zero_of_not_pos empty] at walk
  exact later.ne' walk.eq_nil_of_zero.2

theorem take_min (positive : 0 < size) (kept : ¬ skipped (start / size)) (more : 0 < left)
    (walk : BlockWalk size skipped (start + min left (blockEnd size start - start))
      (left - min left (blockEnd size start - start)) pieces stop) :
    BlockWalk size skipped start left
      ((start, min left (blockEnd size start - start)) :: pieces) stop := by
  have later := @lt_blockEnd size start positive
  by_cases enough : left ≤ blockEnd size start - start
  · rw [Nat.min_eq_left enough] at walk ⊢
    rw [Nat.sub_self] at walk
    obtain ⟨rfl, rfl⟩ := walk.eq_nil_of_zero
    exact .last more kept enough
  · rw [Nat.min_eq_right (by omega)] at walk ⊢
    rw [Nat.add_sub_cancel' later.le] at walk
    exact .take kept (by omega) walk

section

variable (positive : 0 < size) (walk : BlockWalk size skipped start left pieces stop)
include positive walk

theorem cases_min (more : 0 < left) :
    skipped (start / size) ∧ BlockWalk size skipped (blockEnd size start) left pieces stop ∨
      ¬ skipped (start / size) ∧
        ∃ rest, pieces = (start, min left (blockEnd size start - start)) :: rest ∧
          BlockWalk size skipped (start + min left (blockEnd size start - start))
            (left - min left (blockEnd size start - start)) rest stop := by
  cases walk with
  | nil => exact absurd more (Nat.lt_irrefl 0)
  | skip _ skips rest => exact .inl ⟨skips, rest⟩
  | last _ kept enough =>
    rw [Nat.min_eq_left enough, Nat.sub_self]
    exact .inr ⟨kept, [], rfl, .nil _⟩
  | take kept room rest =>
    rw [Nat.min_eq_right room.le]
    rw [Nat.add_sub_cancel' (lt_blockEnd positive).le]
    exact .inr ⟨kept, _, rfl, rest⟩

theorem mem_addresses (member : address ∈ pieceAddresses pieces) :
    start ≤ address ∧ address < stop ∧ ¬ skipped (address / size) := by
  induction walk with
  | nil => cases member
  | @skip start _ _ _ _ _ _ induction =>
    have lower := @lt_blockEnd size start positive
    have inside := induction member
    exact ⟨by omega, inside.2⟩
  | @last start left _ kept room =>
    simp only [pieceAddresses_cons, pieceAddresses_nil, List.append_nil,
      List.mem_range'_1] at member
    refine ⟨member.1, member.2, ?_⟩
    rw [div_eq_of_lt_blockEnd positive member.1 (by omega)]
    exact kept
  | @take start left stop pieces kept room rest induction =>
    have lower := @lt_blockEnd size start positive
    have bound := rest.start_le_stop positive
    rw [pieceAddresses_cons, List.mem_append, List.mem_range'_1] at member
    rcases member with here | later
    · refine ⟨here.1, by omega, ?_⟩
      rw [div_eq_of_lt_blockEnd positive here.1 (by omega)]
      exact kept
    · have inside := induction later
      exact ⟨by omega, inside.2⟩

theorem nodup_addresses : (pieceAddresses pieces).Nodup := by
  induction walk with
  | nil => exact List.nodup_nil
  | skip _ _ _ induction => exact induction
  | last => simpa using List.nodup_range'
  | @take start left stop pieces kept room rest induction =>
    apply List.Nodup.append List.nodup_range' induction
    intro address here later
    have inside := (rest.mem_addresses positive later).1
    rw [List.mem_range'_1] at here
    omega

end

theorem last_mem_addresses (walk : BlockWalk size skipped start left pieces stop)
    (nonempty : 0 < left) :
    stop - 1 ∈ pieceAddresses pieces := by
  induction walk with
  | nil => exact absurd nonempty (Nat.lt_irrefl 0)
  | skip _ _ _ induction => exact induction nonempty
  | @last start left =>
    simp only [pieceAddresses_cons, pieceAddresses_nil, List.append_nil, List.mem_range'_1]
    omega
  | take _ room _ induction =>
    rw [pieceAddresses_cons, List.mem_append]
    exact .inr (induction (by omega))

/-- The blocks that the window of a walk meets. -/
def Meets (size start stop block : Nat) : Prop :=
  start < stop ∧ start / size ≤ block ∧ block * size < stop

theorem meets_first (later : start < stop) : Meets size start stop (start / size) := by
  have bound := Nat.div_mul_le_self start size
  exact ⟨later, Nat.le_refl _, by omega⟩

theorem forall_meets_iff {Holds : Nat → Prop} (positive : 0 < size) (later : start < stop) :
    (∀ block, Meets size start stop block → Holds block) ↔
      Holds (start / size) ∧
        ∀ block, Meets size (blockEnd size start) stop block → Holds block := by
  have lower := @lt_blockEnd size start positive
  have index := @blockEnd_div size start positive
  constructor
  · intro all
    refine ⟨all _ (meets_first later), fun block meets => all block ?_⟩
    rw [Meets, index] at meets
    exact ⟨later, by omega, meets.2.2⟩
  · rintro ⟨first, others⟩ block meets
    rcases Nat.eq_or_lt_of_le meets.2.1 with equal | behind
    · exact equal ▸ first
    · have reach : blockEnd size start ≤ block * size := Nat.mul_le_mul_right size behind
      exact others block ⟨reach.trans_lt meets.2.2, index ▸ behind, meets.2.2⟩

theorem forall_meets_last_iff {Holds : Nat → Prop} (positive : 0 < size) (nonempty : 0 < left)
    (room : left ≤ blockEnd size start - start) :
    (∀ block, Meets size start (start + left) block → Holds block) ↔ Holds (start / size) := by
  rw [forall_meets_iff positive (by omega)]
  refine and_iff_left fun block meets => ?_
  have order := meets.1
  omega

/-- A walk depends only on the blocks that it meets. -/
theorem congr (positive : 0 < size) (walk : BlockWalk size skipped start left pieces stop)
    (same : ∀ block, Meets size start stop block → (skipped block ↔ other block)) :
    BlockWalk size other start left pieces stop := by
  induction walk with
  | nil => exact .nil _
  | @skip start left stop pieces nonempty skips rest induction =>
    have lower := @lt_blockEnd size start positive
    have bound := rest.start_le_stop positive
    rw [forall_meets_iff positive (by omega)] at same
    exact .skip nonempty (same.1.mp skips) (induction same.2)
  | @last start left nonempty kept room =>
    rw [forall_meets_last_iff positive nonempty room] at same
    exact .last nonempty (mt same.mpr kept) room
  | @take start left stop pieces kept room rest induction =>
    have lower := @lt_blockEnd size start positive
    have bound := rest.start_le_stop positive
    rw [forall_meets_iff positive (by omega)] at same
    exact .take (mt same.1.mpr kept) room (induction same.2)

theorem addresses_of_kept (positive : 0 < size)
    (walk : BlockWalk size skipped start left pieces stop)
    (kept : ∀ block, Meets size start stop block → ¬ skipped block) :
    pieceAddresses pieces = List.range' start left ∧ stop = start + left := by
  induction walk with
  | nil => exact ⟨rfl, rfl⟩
  | @skip start left stop pieces nonempty skips rest induction =>
    have lower := @lt_blockEnd size start positive
    have bound := rest.start_le_stop positive
    exact absurd skips (kept _ (meets_first (by omega)))
  | last => simp
  | @take start left stop pieces _ room rest induction =>
    have lower := @lt_blockEnd size start positive
    have bound := rest.start_le_stop positive
    rw [forall_meets_iff positive (by omega)] at kept
    obtain ⟨addresses, ends⟩ := induction kept.2
    have joined := @List.range'_append_1 start (blockEnd size start - start)
      (left - (blockEnd size start - start))
    rw [show start + (blockEnd size start - start) = blockEnd size start by omega,
      show blockEnd size start - start + (left - (blockEnd size start - start)) = left by
        omega] at joined
    rw [pieceAddresses_cons, addresses, joined]
    exact ⟨rfl, by omega⟩

/-! ## Comparing two walks -/

section

variable {Kept : Nat → Prop} [DecidablePred Kept]

theorem count_eq_of_none (ordered : low ≤ high)
    (none : ∀ address, low ≤ address → address < high → ¬ Kept address) :
    Nat.count Kept high = Nat.count Kept low := by
  induction high, ordered using Nat.le_induction with
  | base => rfl
  | succ high ordered induction =>
    rw [Nat.count_succ, if_neg (none high ordered (Nat.lt_succ_self high)), Nat.add_zero,
      induction fun address lower upper => none address lower (Nat.lt_succ_of_lt upper)]

theorem count_eq_of_all (ordered : low ≤ high)
    (all : ∀ address, low ≤ address → address < high → Kept address) :
    Nat.count Kept high = Nat.count Kept low + (high - low) := by
  induction high, ordered using Nat.le_induction with
  | base => simp
  | succ high ordered induction =>
    rw [Nat.count_succ, if_pos (all high ordered (Nat.lt_succ_self high)),
      induction fun address lower upper => all address lower (Nat.lt_succ_of_lt upper)]
    omega

end

variable [DecidablePred skipped]

theorem count_stop (positive : 0 < size) (walk : BlockWalk size skipped start left pieces stop) :
    Nat.count (fun address => ¬ skipped (address / size)) stop =
      Nat.count (fun address => ¬ skipped (address / size)) start + left := by
  induction walk with
  | nil => rfl
  | @skip start left stop pieces _ skips _ induction =>
    have lower := @lt_blockEnd size start positive
    rw [induction, count_eq_of_none lower.le]
    intro address above below
    rw [div_eq_of_lt_blockEnd positive above below, not_not]
    exact skips
  | @last start left _ kept room =>
    rw [count_eq_of_all (Nat.le_add_right start left), Nat.add_sub_cancel_left]
    intro address above below
    rw [div_eq_of_lt_blockEnd positive above (by omega)]
    exact kept
  | @take start left stop pieces kept room _ induction =>
    have lower := @lt_blockEnd size start positive
    rw [induction, count_eq_of_all lower.le]
    · omega
    · intro address above below
      rw [div_eq_of_lt_blockEnd positive above below]
      exact kept

/-- A walk that skips other blocks, but takes no address of a block to skip. -/
theorem count_le_stop (positive : 0 < size) (walk : BlockWalk size other start left pieces stop)
    (kept : ∀ address ∈ pieceAddresses pieces, ¬ skipped (address / size)) :
    Nat.count (fun address => ¬ skipped (address / size)) start + left ≤
      Nat.count (fun address => ¬ skipped (address / size)) stop := by
  induction walk with
  | nil => exact Nat.le_refl _
  | @skip start left stop pieces _ _ _ induction =>
    have lower := @lt_blockEnd size start positive
    exact (Nat.add_le_add_right (Nat.count_monotone _ lower.le) _).trans (induction kept)
  | @last start left =>
    rw [count_eq_of_all (Nat.le_add_right start left), Nat.add_sub_cancel_left]
    intro address above below
    exact kept address (by simp [List.mem_range'_1, above, below])
  | @take start left stop pieces _ room _ induction =>
    have lower := @lt_blockEnd size start positive
    have later := induction fun address member => kept address (by simp [member])
    rw [count_eq_of_all lower.le] at later
    · omega
    · intro address above below
      apply kept
      rw [pieceAddresses_cons, List.mem_append, List.mem_range'_1]
      exact .inl ⟨above, by omega⟩

/-- A walk under other blocks that takes no address of a block to skip and does
not end later is the same walk. -/
theorem eq_of_stop_le (positive : 0 < size) (walk : BlockWalk size skipped start left pieces stop)
    (walk' : BlockWalk size other start left pieces' stop')
    (kept : ∀ address ∈ pieceAddresses pieces', ¬ skipped (address / size)) (ends : stop' ≤ stop) :
    pieces' = pieces ∧ stop' = stop ∧
      ∀ block, Meets size start stop block → (skipped block ↔ other block) := by
  have reach := walk.start_le_stop positive
  induction walk' generalizing pieces with
  | nil start =>
    obtain ⟨rfl, rfl⟩ := walk.eq_nil_of_zero
    exact ⟨rfl, rfl, fun block meets => absurd meets.1 (Nat.lt_irrefl _)⟩
  | @skip start left stop' pieces' nonempty skips rest induction =>
    have lower := @lt_blockEnd size start positive
    rw [forall_meets_iff positive (by omega)]
    rcases walk.cases_min positive nonempty with ⟨here, rest'⟩ | ⟨here, _⟩
    · obtain ⟨samePieces, sameStop, agree⟩ :=
        induction rest' kept ends (rest'.start_le_stop positive)
      exact ⟨samePieces, sameStop, iff_of_true here skips, agree⟩
    · -- The other walk passes over addresses that this one takes, so it ends later.
      have reached := rest.count_le_stop positive kept
      have exact_ := walk.count_stop positive
      have monotone := Nat.count_monotone (fun address => ¬ skipped (address / size)) ends
      rw [count_eq_of_all lower.le fun address above below => by
        rw [div_eq_of_lt_blockEnd positive above below]
        exact here] at reached
      omega
  | @last start left nonempty keeps' room =>
    have here : ¬ skipped (start / size) :=
      kept start (by simp [List.mem_range'_1, nonempty])
    cases walk with
    | nil => exact absurd nonempty (Nat.lt_irrefl 0)
    | skip _ skips => exact absurd skips here
    | last =>
      rw [forall_meets_last_iff positive nonempty room]
      exact ⟨rfl, rfl, iff_of_false here keeps'⟩
    | take _ room' => omega
  | @take start left stop' pieces' keeps' room rest induction =>
    have lower := @lt_blockEnd size start positive
    have here : ¬ skipped (start / size) := by
      apply kept
      rw [pieceAddresses_cons, List.mem_append, List.mem_range'_1]
      exact .inl ⟨Nat.le_refl _, by omega⟩
    rw [forall_meets_iff positive (by omega)]
    cases walk with
    | nil => exact absurd room (Nat.not_lt_zero _)
    | skip _ skips => exact absurd skips here
    | last _ _ room' => omega
    | take _ _ rest' =>
      obtain ⟨samePieces, sameStop, agree⟩ := induction rest'
        (fun address member => kept address (by simp [member])) ends (rest'.start_le_stop positive)
      exact ⟨by rw [samePieces], sameStop, iff_of_false here keeps', agree⟩

theorem unique (positive : 0 < size) (walk : BlockWalk size skipped start left pieces stop)
    (walk' : BlockWalk size skipped start left pieces' stop') :
    pieces' = pieces ∧ stop' = stop := by
  rcases Nat.le_total stop' stop with ends | ends
  · obtain ⟨samePieces, sameStop, _⟩ := walk.eq_of_stop_le positive walk'
      (fun address member => (walk'.mem_addresses positive member).2.2) ends
    exact ⟨samePieces, sameStop⟩
  · obtain ⟨samePieces, sameStop, _⟩ := walk'.eq_of_stop_le positive walk
      (fun address member => (walk.mem_addresses positive member).2.2) ends
    exact ⟨samePieces.symm, sameStop.symm⟩

end BlockWalk

end UBootV210
