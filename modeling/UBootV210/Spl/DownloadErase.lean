import UBootV210.Spl.Download

/-! # Blocks are erased before they are programmed

The rows that the calls into `nand.c` address on the chip, and the order of
erasing and programming over any sequence of downloads. -/

namespace UBootV210.Spl

/-- What the chip does, with the starts of the downloads. Blocks hold 64 rows. -/
inductive FlashOperation
  | start
  | erase (block : Nat)
  | program (row : Nat)
  deriving DecidableEq

/-- The row that the three row cycles of an address give: the last one carries three bits. -/
def rowOf (addr : UInt32) : Nat := (addr / PAGE_SIZE).toNat % 2 ^ 19

/-- `nand_erase` and `nand_write_page_8bit` refuse addresses that are not aligned. -/
def NandCall.operation : NandCall → Option FlashOperation
  | .downloadInit _ => some .start
  | .nandErase addr =>
      if addr &&& (BLOCK_SIZE - 1) ≠ 0 then none else some (.erase (rowOf addr / 64))
  | .nandWritePage8bit _ addr =>
      if addr &&& (PAGE_SIZE - 1) ≠ 0 then none else some (.program (rowOf addr))

def operations (calls : List NandCall) : List FlashOperation := calls.filterMap NandCall.operation

/-- The block of every programmed row was erased earlier in the same download. -/
def ErasedFirst (trace : List FlashOperation) : Prop :=
  ∀ before row after, trace = before ++ .program row :: after →
    ∃ front middle, before = front ++ .erase (row / 64) :: middle ∧ .start ∉ middle

/-- A row is not programmed again before its block is erased. -/
def ProgrammedOnce (trace : List FlashOperation) : Prop :=
  ∀ before middle after row, trace = before ++ .program row :: (middle ++ .program row :: after) →
    .erase (row / 64) ∈ middle

section Trace

variable {trace : List FlashOperation} {operation : FlashOperation}

theorem ErasedFirst.concat (erased : ErasedFirst trace) (last : ∀ row, operation = .program row →
      ∃ front middle, trace = front ++ .erase (row / 64) :: middle ∧ .start ∉ middle) :
    ErasedFirst (trace ++ [operation]) := by
  intro before row after equal
  cases after using List.reverseRecOn with
  | nil =>
    have parts := List.append_inj' equal rfl
    rw [← parts.1]
    exact last row (List.singleton_inj.mp parts.2)
  | append_singleton after other _ =>
    rw [← List.cons_append, ← List.append_assoc] at equal
    exact erased before row after (List.append_inj' equal rfl).1

theorem ProgrammedOnce.concat (once : ProgrammedOnce trace)
    (last : ∀ row, operation = .program row → ∀ before middle,
      trace = before ++ .program row :: middle → .erase (row / 64) ∈ middle) :
    ProgrammedOnce (trace ++ [operation]) := by
  intro before middle after row equal
  cases after using List.reverseRecOn with
  | nil =>
    rw [← List.cons_append, ← List.append_assoc] at equal
    have parts := List.append_inj' equal rfl
    exact last row (List.singleton_inj.mp parts.2) before middle parts.1
  | append_singleton after other _ =>
    have regrouped : before ++ .program row :: (middle ++ .program row :: (after ++ [other])) =
        before ++ .program row :: (middle ++ .program row :: after) ++ [other] := by
      simp
    rw [regrouped] at equal
    exact once before middle after row (List.append_inj' equal rfl).1

end Trace

/-! ## The state between two calls -/

variable {addr : UInt32} {trace : List FlashOperation}

namespace Programmer

/-- Inside a block the rows of the block below the next one are all that was
programmed since the block was erased. -/
def BlockOpen (trace : List FlashOperation) (row : Nat) : Prop :=
  ∃ front middle, trace = front ++ .erase (row / 64) :: middle ∧ .start ∉ middle ∧
    ∀ other, .program other ∈ middle → other < row

structure Ordered (programmer : Programmer) : Prop where
  aligned : programmer.nandAddress.toNat % 2048 = 0
  blockOpen : programmer.nandAddress.toNat % 131072 ≠ 0 →
    BlockOpen (operations programmer.calls) (rowOf programmer.nandAddress)
  erasedFirst : ErasedFirst (operations programmer.calls)
  programmedOnce : ProgrammedOnce (operations programmer.calls)

variable {programmer : Programmer}

theorem rowOf_eq : rowOf addr = addr.toNat / 2048 % 2 ^ 19 := by
  rfl

theorem pageSize_pos : 0 < PAGE_SIZE := by decide

theorem and_eq_zero (mask_eq : mask.toNat = 2 ^ width - 1)
    (aligned : addr.toNat % 2 ^ width = 0) : addr &&& mask = 0 := by
  rw [← UInt32.toNat_inj, UInt32.toNat_and, mask_eq, Nat.and_two_pow_sub_one_eq_mod, aligned]
  rfl

theorem operation_nandErase (aligned : addr.toNat % 131072 = 0) :
    (NandCall.nandErase addr).operation = some (.erase (rowOf addr / 64)) := by
  have masked : addr &&& (BLOCK_SIZE - 1) = 0 := and_eq_zero (by decide : _ = 2 ^ 17 - 1) aligned
  rw [NandCall.operation, if_neg (not_not_intro masked)]

theorem operation_nandWritePage8bit (aligned : addr.toNat % 2048 = 0) (buf : NandBuff) :
    (NandCall.nandWritePage8bit buf addr).operation = some (.program (rowOf addr)) := by
  have masked : addr &&& (PAGE_SIZE - 1) = 0 := and_eq_zero (by decide : _ = 2 ^ 11 - 1) aligned
  rw [NandCall.operation, if_neg (not_not_intro masked)]

theorem nextAddress_toNat : (addr + PAGE_SIZE).toNat = (addr.toNat + 2048) % 2 ^ 32 := by
  rfl

theorem BlockOpen.program (opened : BlockOpen trace (rowOf addr)) (aligned : addr.toNat % 2048 = 0)
    (inside : (addr + PAGE_SIZE).toNat % 131072 ≠ 0) :
    BlockOpen (trace ++ [.program (rowOf addr)]) (rowOf (addr + PAGE_SIZE)) := by
  obtain ⟨front, middle, trace_eq, sameDownload, below⟩ := opened
  have next : rowOf (addr + PAGE_SIZE) = rowOf addr + 1 ∧
      rowOf (addr + PAGE_SIZE) / 64 = rowOf addr / 64 := by
    rw [nextAddress_toNat] at inside
    rw [rowOf_eq, rowOf_eq, nextAddress_toNat]
    omega
  refine ⟨front, middle ++ [.program (rowOf addr)], ?_, ?_, ?_⟩
  · rw [trace_eq, next.2, List.append_assoc]
    rfl
  · intro member
    rcases List.mem_append.mp member with earlier | last
    · exact sameDownload earlier
    · cases List.mem_singleton.mp last
  · intro other member
    rw [next.1]
    rcases List.mem_append.mp member with earlier | last
    · exact (below other earlier).trans (Nat.lt_succ_self _)
    · cases List.mem_singleton.mp last
      exact Nat.lt_succ_self _

theorem BlockOpen.ordered (opened : BlockOpen trace row) (erased : ErasedFirst trace)
    (once : ProgrammedOnce trace) :
    ErasedFirst (trace ++ [.program row]) ∧ ProgrammedOnce (trace ++ [.program row]) := by
  obtain ⟨front, middle, trace_eq, sameDownload, below⟩ := opened
  constructor
  · apply erased.concat
    intro other equal
    cases equal
    exact ⟨front, middle, trace_eq, sameDownload⟩
  · apply once.concat
    intro other equal before after split
    cases equal
    -- Behind the erase there are lower rows only, so the row was programmed before it.
    rcases List.append_eq_append_iff.mp (trace_eq.symm.trans split)
      with ⟨between, _, rest⟩ | ⟨between, _, rest⟩
    · cases between with
      | nil => cases rest
      | cons first between =>
        rw [List.cons_append, List.cons.injEq] at rest
        exact absurd (below row (by simp [rest.2])) (Nat.lt_irrefl row)
    · cases between with
      | nil => cases rest
      | cons first between =>
        rw [List.cons_append, List.cons.injEq] at rest
        simp [rest.2]

theorem operations_append (front back : List NandCall) :
    operations (front ++ back) = operations front ++ operations back := List.filterMap_append ..

theorem mod_blockSize_iff : addr % BLOCK_SIZE = 0 ↔ addr.toNat % 131072 = 0 := by
  rw [← UInt32.toNat_inj]
  rfl

theorem Ordered.eraseBlock (ordered : programmer.Ordered) :
    BlockOpen (operations programmer.eraseBlock.calls) (rowOf programmer.nandAddress) ∧
      ErasedFirst (operations programmer.eraseBlock.calls) ∧
      ProgrammedOnce (operations programmer.eraseBlock.calls) := by
  rw [Programmer.eraseBlock]
  split
  case isTrue boundary =>
    have erases := operation_nandErase (mod_blockSize_iff.mp boundary)
    have trace_eq : operations (programmer.call (.nandErase programmer.nandAddress)).calls =
        operations programmer.calls ++ [.erase (rowOf programmer.nandAddress / 64)] := by
      rw [call, operations_append]
      simp [operations, erases]
    rw [trace_eq]
    refine ⟨⟨operations programmer.calls, [], rfl, List.not_mem_nil, ?_⟩, ?_, ?_⟩
    · intro other member
      cases member
    · apply ordered.erasedFirst.concat
      intro row equal
      cases equal
    · apply ordered.programmedOnce.concat
      intro row equal
      cases equal
  case isFalse inside =>
    rw [mod_blockSize_iff] at inside
    exact ⟨ordered.blockOpen inside, ordered.erasedFirst, ordered.programmedOnce⟩

theorem eraseBlock_nandAddress (programmer : Programmer) :
    programmer.eraseBlock.nandAddress = programmer.nandAddress := by
  rw [Programmer.eraseBlock]
  split <;> rfl

theorem Ordered.programTonand (ordered : programmer.Ordered) :
    programmer.programTonand.Ordered := by
  have opened := ordered.eraseBlock
  have programs := operation_nandWritePage8bit ordered.aligned programmer.eraseBlock.nandBuff
  have trace_eq : operations programmer.programTonand.calls =
      operations programmer.eraseBlock.calls ++ [.program (rowOf programmer.nandAddress)] := by
    change operations (programmer.eraseBlock.calls ++ _) = _
    rw [programmer.eraseBlock_nandAddress]
    simp [operations, programs]
  have next : programmer.programTonand.nandAddress = programmer.nandAddress + PAGE_SIZE :=
    programmer.programTonand_nandAddress
  have after := opened.1.ordered opened.2.1 opened.2.2
  constructor
  · rw [next, nextAddress_toNat]
    have aligned := ordered.aligned
    omega
  · intro inside
    rw [next] at inside ⊢
    rw [trace_eq]
    exact opened.1.program ordered.aligned inside
  · rw [trace_eq]
    exact after.1
  · rw [trace_eq]
    exact after.2

structure Ready (programmer : Programmer) : Prop where
  room : programmer.buffOffset < PAGE_SIZE
  ordered : programmer.Ordered

section

variable (ready : programmer.Ready)
include ready

theorem Ready.putByte (byte : UInt8) : ∃ next, programmer.putByte byte = .ok next ∧ next.Ready := by
  have inside : programmer.buffOffset.toNat < PAGE_SIZE.toNat :=
    UInt32.lt_iff_toNat_lt.mp ready.room
  -- The order does not depend on the buffer.
  have stored : Ordered { programmer with
      nandBuff := programmer.nandBuff.set programmer.buffOffset.toNat byte inside
      buffOffset := programmer.buffOffset + 1 } := { ready.ordered with }
  rw [Programmer.putByte, dif_pos inside]
  by_cases full : programmer.buffOffset + 1 ≥ PAGE_SIZE
  · refine ⟨_, if_pos full, pageSize_pos, ?_⟩
    exact { stored.programTonand with }
  · exact ⟨_, if_neg full, UInt32.not_le.mp full, stored⟩

theorem Ready.putBytes (bytes : List UInt8) :
    ∃ next, bytes.foldlM Programmer.putByte programmer = .ok next ∧ next.Ready := by
  induction bytes generalizing programmer with
  | nil => exact ⟨programmer, rfl, ready⟩
  | cons byte bytes induction =>
    obtain ⟨middle, put, ready⟩ := ready.putByte byte
    rw [List.foldlM_cons, put]
    exact induction ready

theorem Ready.xmCallback (callback : Callback) :
    ∃ next, programmer.xmCallback callback = .ok next ∧ next.Ready := by
  cases callback with
  | entry => exact ⟨_, rfl, pageSize_pos, { ready.ordered with }⟩
  | soh number buffer => exact ready.putBytes buffer
  | eot =>
    refine ⟨programmer.programTonand, rfl, ?_, ready.ordered.programTonand⟩
    rw [programTonand_buffOffset]
    exact ready.room
  | can => exact ⟨programmer, rfl, ready⟩

theorem Ready.downloadInit (aligned : base % BLOCK_SIZE = 0) :
    (programmer.downloadInit base).Ready := by
  rw [mod_blockSize_iff] at aligned
  have trace_eq : operations (programmer.downloadInit base).calls =
      operations programmer.calls ++ [.start] := operations_append _ _
  refine ⟨ready.room, ?_, ?_, ?_, ?_⟩
  · change base.toNat % 2048 = 0
    omega
  · exact fun inside => absurd aligned inside
  · rw [trace_eq]
    apply ready.ordered.erasedFirst.concat
    intro row equal
    cases equal
  · rw [trace_eq]
    apply ready.ordered.programmedOnce.concat
    intro row equal
    cases equal

inductive Event
  | downloadInit (base : UInt32)
  | callback (callback : Callback)

def step (programmer : Programmer) : Event → Exec Programmer
  | .downloadInit base => .ok (programmer.downloadInit base)
  | .callback callback => programmer.xmCallback callback

def Event.Aligned : Event → Prop
  | .downloadInit base => base % BLOCK_SIZE = 0
  | .callback _ => True

theorem Ready.step {event : Event} (aligned : event.Aligned) :
    ∃ next, programmer.step event = .ok next ∧ next.Ready := by
  cases event with
  | downloadInit base => exact ⟨_, rfl, ready.downloadInit aligned⟩
  | callback callback => exact ready.xmCallback callback

theorem Ready.run {events : List Event} (aligned : ∀ event ∈ events, event.Aligned) :
    ∃ last, events.foldlM Programmer.step programmer = .ok last ∧ last.Ready := by
  induction events generalizing programmer with
  | nil => exact ⟨programmer, rfl, ready⟩
  | cons event events induction =>
    obtain ⟨middle, stepped, ready⟩ := ready.step (aligned event List.mem_cons_self)
    rw [List.foldlM_cons, stepped]
    exact induction ready fun other member => aligned other (List.mem_cons_of_mem _ member)

end

theorem powerOn_ready : powerOn.Ready where
  room := by decide
  ordered :=
    { aligned := rfl
      blockOpen := fun inside => absurd rfl inside
      erasedFirst := fun before row after equal => by simp [operations, powerOn] at equal
      programmedOnce := fun before middle after row equal => by
        simp [operations, powerOn] at equal }

/-- Any downloads at the starts of blocks, with any calls of `xmCallback` in any
order, program rows of erased blocks only, and none of them twice. -/
theorem downloads_program_erased {events : List Event} (aligned : ∀ event ∈ events, event.Aligned) :
    ∃ last, events.foldlM Programmer.step powerOn = .ok last ∧
      ErasedFirst (operations last.calls) ∧ ProgrammedOnce (operations last.calls) := by
  obtain ⟨last, run, ready⟩ := powerOn_ready.run aligned
  exact ⟨last, run, ready.ordered.erasedFirst, ready.ordered.programmedOnce⟩

/-- A download that is broken off and a second one to the same block. -/
theorem downloads_program_erased_twice :
    ∃ last, [.downloadInit 0x20000, .callback .entry, .callback .eot, .downloadInit 0x20000,
        .callback .entry, .callback .eot].foldlM Programmer.step powerOn = .ok last ∧
      ErasedFirst (operations last.calls) ∧ ProgrammedOnce (operations last.calls) := by
  apply downloads_program_erased
  intro event member
  fin_cases member <;> first | exact (by decide : (0x20000 : UInt32) % BLOCK_SIZE = 0) | trivial

end Programmer

end UBootV210.Spl
