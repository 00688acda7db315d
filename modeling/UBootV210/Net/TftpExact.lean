import UBootV210.Net.TftpTransfer

/-! # Exactness of a TFTP transfer

As long as no packet comes so late that its number belongs to another round, the memory
holds the blocks that were taken. -/

namespace UBootV210.Net.Tftp

open StaticBuffer PrefixCopy

structure CountsWraps (client : Client) (block : Nat) : Prop where
  wrap : client.blockWrap = block / tftpSequenceSize
  offset : client.blockWrapOffset =
    block / tftpSequenceSize * tftpSequenceSize * client.blkSize % 2 ^ 32

def Client.place (client : Client) : Nat :=
  ((((client.block : Int) - 1) * client.blkSize + client.blockWrapOffset) % 2 ^ 32).toNat

variable {client : Client} {options : Options} {block : Nat}

theorem CountsWraps.place_eq (counts : CountsWraps client block)
    (number : client.block = block % tftpSequenceSize) (some : 1 ≤ block)
    (small : (block - 1) * client.blkSize < 2 ^ 32) :
    client.place = (block - 1) * client.blkSize := by
  have place : ((block % tftpSequenceSize : Nat) - 1 : Int) * client.blkSize +
      (block / tftpSequenceSize * tftpSequenceSize * client.blkSize : Nat) =
        ((block - 1) * client.blkSize : Nat) := by
    rw [Nat.cast_mul, Nat.cast_mul (block - 1), Nat.cast_sub some, ← Int.add_mul]
    congr 1
    simp only [tftpSequenceSize]
    omega
  rw [Client.place, counts.offset, number, Int.natCast_emod _ (2 ^ 32), Nat.cast_pow,
    Nat.cast_ofNat, Int.add_emod_emod, place,
    Int.emod_eq_of_lt (Int.natCast_nonneg _) (by exact_mod_cast small), Int.toNat_natCast]

theorem takeBlock_fresh (state : client.state = .data) (fresh : client.block ≠ client.lastBlock) :
    takeBlock options body client = ({ client with
          lastBlock := client.block
          timeoutCountMax := timeoutCountDefault
          memory := putBytes client.memory client.place body
          bootFileXferSize := max client.bootFileXferSize ((client.place + body.length) % 2 ^ 32)
          netState := if body.length < client.blkSize then .success else client.netState },
        [.ack (client.block % tftpSequenceSize)]) := by
  rw [takeBlock, if_neg fresh, max_def_lt]
  simp only [storeBlock, tftpComplete, tftpSend, state, Client.place, tftpSequenceSize]
  split
  · rfl
  · rfl

theorem updateBlockNumber_eq (client : Client) : ∃ wrap count offset, updateBlockNumber client =
      { client with blockWrap := wrap, timeoutCount := count, blockWrapOffset := offset } := by
  rw [updateBlockNumber]
  split
  · exact ⟨_, _, _, rfl⟩
  · exact ⟨_, _, _, rfl⟩

namespace Transfer

variable (server : Server)

structure Waiting (transfer : Transfer) : Prop where
  state : (transfer.client.state = .sendRrq ∧ transfer.client.blkSize = tftpBlockSize ∧
      transfer.acks = [] ∧ (server.oack.isSome → transfer.current = 0)) ∨
    (transfer.client.state = .oack ∧ transfer.client.blkSize = server.blkSize ∧
      transfer.client.remotePort = server.port)
  current : transfer.current ≤ 1
  taken : transfer.taken = 0
  block : transfer.client.block = 0
  size : transfer.client.bootFileXferSize = 0
  acks : ∀ ack ∈ transfer.acks, ack = (0, 0)
  unfinished : transfer.client.netState ≠ .success

structure Loading (transfer : Transfer) (stored : Nat) : Prop where
  state : transfer.client.state = .data
  blkSize : transfer.client.blkSize = server.blkSize
  remotePort : transfer.client.remotePort = server.port
  block : transfer.client.block = transfer.taken % tftpSequenceSize
  lastBlock : transfer.client.lastBlock = transfer.taken % tftpSequenceSize
  counts : CountsWraps transfer.client transfer.taken
  taken_le : transfer.taken ≤ stored
  stored_le : stored ≤ transfer.current
  current_le : transfer.current ≤ stored + 1
  known : transfer.current ≤ server.lastBlock
  holds : HoldsUpTo transfer.client.memory server.file (stored * server.blkSize)
  size : transfer.client.bootFileXferSize = min (stored * server.blkSize) server.file.length
  acks : ∀ number block, (number, block) ∈ transfer.acks →
    number = block % tftpSequenceSize ∧ block ≤ stored
  finished : transfer.client.netState = .success → stored = server.lastBlock

structure Took (block stored : Nat) (transfer : Transfer) : Prop where
  loading : transfer.Loading server stored
  taken : transfer.taken = block
  acked : (block % tftpSequenceSize, block) ∈ transfer.acks
  running : block ≠ server.lastBlock → transfer.client.netState = .goOn

def Exact (transfer : Transfer) : Prop :=
  transfer.Waiting server ∨ ∃ stored, transfer.Loading server stored

variable {server} {transfer : Transfer} {stored number : Nat}

theorem Waiting.heard (waiting : transfer.Waiting server) : Heard server transfer.client := by
  rcases waiting.state with ⟨request, _⟩ | ⟨_, _, same⟩
  · exact .inl request
  · exact .inr same

theorem Loading.heard (loading : transfer.Loading server stored) :
    Heard server transfer.client := .inr loading.remotePort

theorem receiveBlock_eq (heard : Heard server transfer.client) :
    transfer.receiveBlock server options block = transfer.after
        (if (receiveData options ((server.dataPacket block).drop 2) server.port
          transfer.client).2.isEmpty then transfer.taken else block)
        (receiveData options ((server.dataPacket block).drop 2) server.port transfer.client) := by
  rw [receiveBlock, handle, tftpHandler_dataPacket heard]

/-! ## Later blocks -/

theorem receiveData_eq (data : client.state = .data) :
    receiveData options ((server.dataPacket block).drop 2) server.port client =
      takeBlock options (server.body block)
        (updateBlockNumber { client with block := block % tftpSequenceSize }) := by
  have number : ntohs ((server.dataPacket block).drop 2) = block % tftpSequenceSize := ntohs_block
  have state : (updateBlockNumber
      { client with block := block % tftpSequenceSize }).state = .data := by
    rw [updateBlockNumber]
    split
    · exact data
    · exact data
  rw [receiveData, if_neg (by simp [Server.dataPacket]), number]
  simp only [state, reduceCtorEq, or_self, if_false]
  rfl

theorem receiveBlock_client (heard : Heard server transfer.client)
    (data : transfer.client.state = .data) :
    (transfer.receiveBlock server options block).client = (takeBlock options (server.body block)
      (updateBlockNumber { transfer.client with block := block % tftpSequenceSize })).1 := by
  rw [receiveBlock_eq heard, receiveData_eq data]
  rfl

theorem Loading.receiveBlock_again (loading : transfer.Loading server stored)
    (again : block % tftpSequenceSize = transfer.client.lastBlock) :
    transfer.receiveBlock server options block = transfer := by
  have same : transfer.client.block = transfer.client.lastBlock := by
    rw [loading.block, loading.lastBlock]
  have counted : updateBlockNumber transfer.client = transfer.client := by
    rw [updateBlockNumber, if_neg (by rw [same]; exact fun both => both.2 both.1)]
  have ignored : receiveData options ((server.dataPacket block).drop 2) server.port
      transfer.client = (transfer.client, []) := by
    rw [receiveData_eq loading.state, again.trans same.symm, counted, takeBlock, if_pos same]
  rw [receiveBlock_eq loading.heard, ignored]
  rfl

theorem Loading.counted (loading : transfer.Loading server stored)
    (small : server.file.length < 2 ^ 32) (known : block ≤ server.lastBlock)
    (fresh : block % tftpSequenceSize ≠ transfer.client.lastBlock)
    (timely : block / tftpSequenceSize = transfer.client.blockWrap +
      if block % tftpSequenceSize = 0 then 1 else 0) :
    CountsWraps (updateBlockNumber { transfer.client with block := block % tftpSequenceSize })
      block := by
  have wrap := loading.counts.wrap
  have offset := loading.counts.offset
  rw [← wrap] at offset
  rw [updateBlockNumber]
  by_cases zero : block % tftpSequenceSize = 0
  · rw [if_pos zero] at timely
    rw [if_pos ⟨zero, fun same => fresh (zero.trans same.symm)⟩]
    refine ⟨?_, ?_⟩
    · have bound : block / tftpSequenceSize < 2 ^ 32 := by
        have inside := known.trans Server.lastBlock_le_length
        rw [tftpSequenceSize]
        omega
      rw [← timely, Nat.mod_eq_of_lt bound]
    · change (transfer.client.blockWrapOffset + transfer.client.blkSize * tftpSequenceSize) %
        2 ^ 32 = block / tftpSequenceSize * tftpSequenceSize * transfer.client.blkSize % 2 ^ 32
      rw [offset, Nat.mod_add_mod, timely]
      congr 1
      ring
  · rw [if_neg zero, Nat.add_zero] at timely
    rw [if_neg fun wraps => zero wraps.1]
    exact ⟨timely.symm, by rw [offset, timely]⟩

theorem Loading.receiveBlock (loading : transfer.Loading server stored)
    (small : server.file.length < 2 ^ 32) (some : 1 ≤ block) (sent : block ≤ transfer.current)
    (running : transfer.client.netState = .goOn)
    (fresh : block % tftpSequenceSize ≠ transfer.client.lastBlock)
    (timely : block / tftpSequenceSize = transfer.client.blockWrap +
      if block % tftpSequenceSize = 0 then 1 else 0) :
    Took server block (max stored block) (transfer.receiveBlock server options block) := by
  have known : block ≤ server.lastBlock := sent.trans loading.known
  have counts := loading.counted small known fresh timely
  obtain ⟨wrap, count, offset, numbered⟩ :=
    updateBlockNumber_eq { transfer.client with block := block % tftpSequenceSize }
  rw [numbered] at counts
  have place : Client.place _ = (block - 1) * server.blkSize :=
    (counts.place_eq rfl some (loading.blkSize ▸ (Server.start_le known).trans_lt small)).trans
      (congrArg _ loading.blkSize)
  have short : (server.body block).length < transfer.client.blkSize ↔ block = server.lastBlock := by
    rw [loading.blkSize, Server.length_body_lt_iff some known]
  have taken : takeBlock options (server.body block) _ = _ :=
    (congrArg _ numbered).trans (takeBlock_fresh loading.state fresh)
  rw [place] at taken
  simp only [Server.start_add_length some known, Nat.mod_mod, short,
    Nat.mod_eq_of_lt ((Nat.min_le_right (block * server.blkSize) _).trans_lt small)] at taken
  have below : (block - 1) * server.blkSize ≤ stored * server.blkSize :=
    Nat.mul_le_mul_right _ (by have := loading.current_le; omega)
  have held : HoldsUpTo
      (putBytes transfer.client.memory ((block - 1) * server.blkSize) (server.body block))
      server.file (max stored block * server.blkSize) := by
    rw [← Nat.mul_max_mul_right, ← Server.stop_eq server some]
    exact loading.holds.putBytes_part below
  rw [receiveBlock_eq loading.heard, receiveData_eq loading.state, taken]
  refine ⟨⟨loading.state, loading.blkSize, loading.remotePort, rfl, rfl,
    ⟨counts.wrap, counts.offset⟩,
    le_max_right _ _, max_le loading.stored_le sent, ?_, loading.known, held, ?_, ?_, ?_⟩, rfl,
    List.mem_cons_self, ?_⟩
  · exact loading.current_le.trans (Nat.add_le_add_right (le_max_left _ _) 1)
  · change max transfer.client.bootFileXferSize _ = _
    rw [loading.size, ← min_max_distrib_right, Nat.mul_max_mul_right]
  · intro number other member
    rcases List.mem_cons.mp member with equal | earlier
    · cases equal
      exact ⟨rfl, le_max_right _ _⟩
    · obtain ⟨equal, order⟩ := loading.acks number other earlier
      exact ⟨equal, order.trans (le_max_left _ _)⟩
  · intro finished
    by_cases last : block = server.lastBlock
    · have order := loading.stored_le.trans loading.known
      omega
    · change (if block = server.lastBlock then _ else transfer.client.netState) = _ at finished
      rw [if_neg last, running] at finished
      cases finished
  · intro notLast
    exact (if_neg notLast).trans running

theorem Waiting.blkSize (waiting : transfer.Waiting server) (current : transfer.current = 1) :
    transfer.client.blkSize = server.blkSize := by
  rcases waiting.state with ⟨_, size, _, none⟩ | ⟨_, size, _⟩
  · rw [size, server.agreed]
    cases oack : server.oack with
    | none => rfl
    | some text =>
      have zero := none (by rw [oack]; rfl)
      omega
  · exact size

/-- The first block clears the counts of the last transfer. -/
def cleared (server : Server) (client : Client) : Client :=
  newTransfer { client with block := 0, state := .data, remotePort := server.port }

theorem Waiting.cleared_loading (waiting : transfer.Waiting server) (current : transfer.current = 1)
    (running : transfer.client.netState = .goOn) :
    Loading server { transfer with client := cleared server transfer.client } 0 := by
  refine ⟨rfl, waiting.blkSize current, rfl, ?_, ?_, ⟨?_, ?_⟩, waiting.taken.le, Nat.zero_le _,
    current.le, current.trans_le (Nat.le_add_left 1 _), ?_, ?_, ?_, ?_⟩
  · rw [waiting.taken]
    rfl
  · rw [waiting.taken]
    rfl
  · rw [waiting.taken]
    rfl
  · simp [waiting.taken, cleared, newTransfer]
  · rw [Nat.zero_mul]
    exact .zero
  · simp [cleared, newTransfer, waiting.size]
  · intro number block member
    cases waiting.acks _ member
    exact ⟨rfl, le_rfl⟩
  · intro finished
    cases running.symm.trans finished

theorem Waiting.receiveData_eq (waiting : transfer.Waiting server) :
    receiveData options ((server.dataPacket 1).drop 2) server.port transfer.client =
      receiveData options ((server.dataPacket 1).drop 2) server.port
        (cleared server transfer.client) := by
  have first : transfer.client.state = .sendRrq ∨ transfer.client.state = .oack ∨
      transfer.client.state = .recvWrq := by
    rcases waiting.state with ⟨request, _⟩ | ⟨oack, _⟩
    · exact .inl request
    · exact .inr (.inl oack)
  have data : (cleared server transfer.client).state = .data := rfl
  have number : ntohs ((server.dataPacket 1).drop 2) = 1 := rfl
  rw [Transfer.receiveData_eq data, receiveData, if_neg (by simp [Server.dataPacket]), number]
  simp only [updateBlockNumber, one_ne_zero, false_and, if_false, if_pos first]
  rfl

theorem Waiting.receiveBlock (waiting : transfer.Waiting server)
    (small : server.file.length < 2 ^ 32) (current : transfer.current = 1)
    (running : transfer.client.netState = .goOn) :
    Took server 1 1 (transfer.receiveBlock server options 1) := by
  have loading := waiting.cleared_loading current running
  have took := @Loading.receiveBlock options 1 _ _ _ loading small le_rfl current.ge running
    one_ne_zero rfl
  rw [receiveBlock_eq loading.heard] at took
  rw [receiveBlock_eq waiting.heard, waiting.receiveData_eq]
  exact took

/-! ## Steps -/

theorem start_waiting (ourPort : Nat) (client : Client) :
    (start server options ourPort client).Waiting server := by
  refine ⟨.inl ⟨rfl, rfl, rfl, ?_⟩, ?_, rfl, rfl, rfl, ?_, ?_⟩
  · intro some
    exact if_pos some
  · rw [start]
    split
    · exact Nat.zero_le 1
    · exact le_rfl
  · intro ack member
    cases member
  · intro finished
    cases finished

theorem Waiting.acked (waiting : transfer.Waiting server) :
    ∀ ack ∈ (transfer.client.block % 65536, transfer.taken) :: transfer.acks, ack = (0, 0) := by
  rw [waiting.block, waiting.taken]
  exact List.forall_mem_cons.mpr ⟨rfl, waiting.acks⟩

theorem Waiting.oack (waiting : transfer.Waiting server) (answer : server.oack = some text) :
    (transfer.after transfer.taken
      (transfer.handle server options (Server.oackPacket text))).Waiting server := by
  have agreed : server.blkSize = oackBlkSize tftpBlockSize text := by
    rw [server.agreed, answer]
  rw [handle, tftpHandler_oackPacket waiting.heard]
  refine { waiting with state := .inr ⟨rfl, ?_, rfl⟩, acks := waiting.acked }
  change oackBlkSize transfer.client.blkSize text = server.blkSize
  rcases waiting.state with ⟨_, size, _⟩ | ⟨_, size, _⟩
  · rw [size, agreed]
  · rw [size, agreed, oackBlkSize_oackBlkSize]

theorem tftpSend_of_sendRrq (state : client.state = .sendRrq) : tftpSend options client =
      [.rrq options.filename (options.timeoutMSecs / 1000) options.blkSizeOption] := by
  rw [tftpSend, state]

theorem tftpSend_of_loading (state : client.state = .oack ∨ client.state = .data) :
    tftpSend options client = [.ack (client.block % 65536)] := by
  rcases state with oack | data
  · rw [tftpSend, oack]
  · rw [tftpSend, data]

theorem tftpTimeout_cases {client : Client} : (tftpTimeout options client = ({ client with
        timeoutCount := client.timeoutCount + 1, netState := .startAgain }, [])) ∨
      (tftpTimeout options client = ({ client with timeoutCount := client.timeoutCount + 1 },
          if client.state = .recvWrq then [] else tftpSend options client)) := by
  rw [tftpTimeout]
  dsimp only
  split
  · exact .inl rfl
  · right
    split
    · rfl
    · rename_i same
      exact congrArg (Prod.mk _) (if_pos (not_not.mp same)).symm

theorem Waiting.timeout (waiting : transfer.Waiting server) :
    (transfer.after transfer.taken (tftpTimeout options transfer.client)).Waiting server := by
  rcases tftpTimeout_cases with gaveUp | again
  · rw [gaveUp]
    exact { waiting with unfinished := NetState.noConfusion }
  · rw [again]
    rcases waiting.state with ⟨request, size, none, first⟩ | ⟨oack, size, port⟩
    · rw [if_neg (by rw [request]; decide), tftpSend_of_sendRrq request]
      exact { waiting with state := .inl ⟨request, size, none, first⟩ }
    · rw [if_neg (by rw [oack]; decide), tftpSend_of_loading (.inl oack)]
      exact { waiting with state := .inr ⟨oack, size, port⟩, acks := waiting.acked }

theorem Waiting.receiveAck (waiting : transfer.Waiting server)
    (sent : (number, block) ∈ transfer.acks) :
    (transfer.receiveAck server number).Waiting server := by
  have zero := waiting.acks _ sent
  cases zero
  rw [Transfer.receiveAck]
  split
  · rename_i next
    have current : transfer.current = 0 := by
      have less := waiting.current
      have equal := next.1
      rw [tftpSequenceSize] at equal
      omega
    rcases waiting.state with ⟨_, _, none, _⟩ | answered
    · rw [none] at sent
      cases sent
    · exact { waiting with state := .inr answered, current := Nat.succ_le_succ current.le }
  · exact waiting

theorem Loading.timeout (loading : transfer.Loading server stored) :
    (transfer.after transfer.taken
      (tftpTimeout options transfer.client)).Loading server stored := by
  rcases tftpTimeout_cases with gaveUp | again
  · rw [gaveUp]
    exact { loading with
      counts := ⟨loading.counts.wrap, loading.counts.offset⟩
      finished := NetState.noConfusion }
  · rw [again, if_neg (by rw [loading.state]; decide), tftpSend_of_loading (.inr loading.state)]
    refine { loading with counts := ⟨loading.counts.wrap, loading.counts.offset⟩, acks := ?_ }
    intro number block member
    rw [loading.block] at member
    rcases List.mem_cons.mp member with equal | earlier
    · cases equal
      exact ⟨Nat.mod_mod _ _, loading.taken_le⟩
    · exact loading.acks number block earlier

theorem Loading.receiveAck (loading : transfer.Loading server stored)
    (sent : (number, block) ∈ transfer.acks)
    (timely : number = transfer.current % tftpSequenceSize → block = transfer.current) :
    (transfer.receiveAck server number).Loading server stored := by
  rw [Transfer.receiveAck]
  split
  · rename_i next
    have current : block = transfer.current := timely next.1
    have order := (loading.acks number block sent).2
    exact { loading with
      stored_le := loading.stored_le.trans (Nat.le_succ _)
      current_le := Nat.succ_le_succ (current ▸ order)
      known := next.2 }
  · exact loading

theorem Exact.step {event : Event} {next : Transfer} (invariant : transfer.Exact server)
    (small : server.file.length < 2 ^ 32) (step : Step server options transfer event next)
    (timely : transfer.Timely event) : next.Exact server := by
  rcases invariant with waiting | ⟨stored, loading⟩
  · cases step with
    | data running some sent =>
      rename_i block
      have first : block = 1 := Nat.le_antisymm (sent.trans waiting.current) some
      subst first
      exact .inr ⟨1, (waiting.receiveBlock small (Nat.le_antisymm waiting.current sent)
        running).loading⟩
    | oack _ answer => exact .inl (waiting.oack answer)
    | ack sent => exact .inl (waiting.receiveAck sent)
    | timeout => exact .inl waiting.timeout
  · cases step with
    | data running some sent =>
      rename_i block
      by_cases again : block % tftpSequenceSize = transfer.client.lastBlock
      · rw [loading.receiveBlock_again again]
        exact .inr ⟨stored, loading⟩
      · have round := (timely loading.state).resolve_left again
        exact .inr ⟨_, (loading.receiveBlock small some sent running again round).loading⟩
    | oack => exact absurd loading.state timely
    | ack sent => exact .inr ⟨stored, loading.receiveAck sent timely⟩
    | timeout => exact .inr ⟨stored, loading.timeout⟩

end Transfer

/-- In every run of timely steps in which the client reports success, the memory
holds the file and the size is the length of the file. -/
theorem download_exact (server : Server) (options : Options) (ourPort : Nat) (client : Client)
    (events : List Event) (final : Transfer) (small : server.file.length < 2 ^ 32)
    (run : Run (fun transfer event next =>
      Transfer.Step server options transfer event next ∧ transfer.Timely event)
      (Transfer.start server options ourPort client) events final)
    (complete : final.client.netState = .success) :
    (∀ (place : Nat) (inside : place < server.file.length),
      final.client.memory place = server.file[place]) ∧
      final.client.bootFileXferSize = server.file.length := by
  have invariant : final.Exact server :=
    run.invariant (fun step invariant => invariant.step small step.1 step.2)
      (.inl (Transfer.start_waiting ourPort client))
  rcases invariant with waiting | ⟨stored, loading⟩
  · exact absurd complete waiting.unfinished
  · have all : server.file.length < stored * server.blkSize := by
      rw [loading.finished complete]
      exact Server.length_lt
    refine ⟨fun place inside => loading.holds place inside (inside.trans all), ?_⟩
    rw [loading.size]
    exact Nat.min_eq_right all.le

def plainServer (file : List UInt8) : Server where
  file := file
  port := 1234
  oack := none
  blkSize := tftpBlockSize
  agreed := rfl
  positive := by decide

def exampleOptions : Options := ⟨[105, 109, 103], 5000, 1468, 10⟩

def idleClient : Client where
  remotePort := 0
  ourPort := 0
  timeoutCount := 0
  timeoutCountMax := timeoutCountDefault
  block := 0
  lastBlock := 0
  blockWrap := 0
  blockWrapOffset := 0
  blkSize := tftpBlockSize
  state := .sendRrq
  bootFileXferSize := 0
  memory := fun _ => 0
  netState := .goOn

def shortFile : List UInt8 := List.replicate 512 7 ++ [1, 2, 3]

def shortStart : Transfer :=
  Transfer.start (plainServer shortFile) exampleOptions 1024 idleClient

def Transfer.receiveShort (transfer : Transfer) (block : Nat) : Transfer :=
  transfer.receiveBlock (plainServer shortFile) exampleOptions block

/-- The first block comes again after it was acknowledged. -/
theorem download_exact_short : ∃ final,
      Run (Transfer.Step (plainServer shortFile) exampleOptions) shortStart
        [.data 1, .ack 1 1, .data 1, .data 2] final ∧
      (∀ (place : Nat) (inside : place < shortFile.length),
        final.client.memory place = shortFile[place]) ∧
      final.client.bootFileXferSize = 515 := by
  have run : Run (fun transfer event next =>
        Transfer.Step (plainServer shortFile) exampleOptions transfer event next ∧
          transfer.Timely event) shortStart [.data 1, .ack 1 1, .data 1, .data 2]
        ((((shortStart.receiveShort 1).receiveAck (plainServer shortFile) 1).receiveShort 1
          ).receiveShort 2) := by
    refine .cons ⟨.data rfl le_rfl le_rfl, fun loading => State.noConfusion loading⟩ ?_
    refine .cons ⟨.ack (by decide +kernel), fun _ => by decide +kernel⟩ ?_
    refine .cons ⟨.data (by decide +kernel) le_rfl (by decide +kernel),
      fun _ => .inl (by decide +kernel)⟩ ?_
    exact .cons ⟨.data (by decide +kernel) (by decide) (by decide +kernel),
      fun _ => .inr (by decide +kernel)⟩ (.nil _)
  have exactly := download_exact (plainServer shortFile) exampleOptions 1024 idleClient _ _
    (by decide +kernel) run (by decide +kernel)
  exact ⟨_, run.mono And.left, exactly.1, exactly.2.trans (by decide +kernel)⟩

/-! ## A late block -/

section LateBlock

variable {server : Server} {options : Options} {ourPort : Nat} {client : Client}

theorem Transfer.Took.acknowledged (took : transfer.Took server block block)
    (current : transfer.current = block) (more : block < server.lastBlock) :
    ∃ next, Transfer.Step server options transfer (.ack (block % tftpSequenceSize) block) next ∧
      next.Loading server block ∧ next.taken = block ∧ next.current = block + 1 ∧
      next.client.netState = .goOn := by
  refine ⟨_, .ack took.acked, took.loading.receiveAck took.acked fun _ => current.symm, ?_⟩
  rw [Transfer.receiveAck, if_pos ⟨by rw [current], by rwa [current]⟩]
  exact ⟨took.taken, congrArg (· + 1) current, took.running more.ne⟩

theorem delivered_in_order (direct : server.oack = none) (small : server.file.length < 2 ^ 32)
    (more : count + 1 < server.lastBlock) :
    ∃ events transfer, Run (Transfer.Step server options)
        (Transfer.start server options ourPort client) events transfer ∧
      transfer.Loading server (count + 1) ∧ transfer.taken = count + 1 ∧
      transfer.current = count + 2 ∧ transfer.client.netState = .goOn := by
  induction count with
  | zero =>
    have current : (Transfer.start server options ourPort client).current = 1 := by
      rw [Transfer.start, direct]
      rfl
    have waiting : (Transfer.start server options ourPort client).Waiting server :=
      Transfer.start_waiting ourPort client
    have took : Transfer.Took server 1 1
        ((Transfer.start server options ourPort client).receiveBlock server options 1) :=
      waiting.receiveBlock small current rfl
    obtain ⟨next, step, rest⟩ := took.acknowledged current more
    exact ⟨_, next, .cons (.data rfl le_rfl current.ge) (.cons step (.nil _)), rest⟩
  | succ count induction =>
    obtain ⟨events, transfer, run, loading, taken, current, running⟩ := induction (by omega)
    have fresh : (count + 2) % tftpSequenceSize ≠ transfer.client.lastBlock := by
      rw [loading.lastBlock, taken, tftpSequenceSize]
      omega
    have timely : (count + 2) / tftpSequenceSize = transfer.client.blockWrap +
        if (count + 2) % tftpSequenceSize = 0 then 1 else 0 := by
      rw [loading.counts.wrap, taken, tftpSequenceSize]
      split <;> omega
    have took : Transfer.Took server (count + 2) (max (count + 1) (count + 2))
        (transfer.receiveBlock server options (count + 2)) :=
      loading.receiveBlock small (by omega) current.ge running fresh timely
    rw [Nat.max_eq_right (Nat.le_succ _)] at took
    obtain ⟨next, step, rest⟩ := took.acknowledged current more
    exact ⟨_, next, run.append (.cons (.data running (by omega) current.ge)
      (.cons step (.nil _))), rest⟩

/-- A copy of the block with number 0 arrives after the block behind it. The client counts
the wrap once more and stores the rest of the file too far behind. -/
theorem late_block_misplaced (direct : server.oack = none)
    (length : server.file.length = 65537 * tftpBlockSize) :
    ∃ events final, Run (Transfer.Step server options)
        (Transfer.start server options ourPort client) events final ∧
      final.client.netState = .success ∧
      server.file.length < final.client.bootFileXferSize := by
  have size : server.blkSize = tftpBlockSize := by
    rw [server.agreed, direct]
  have last : server.lastBlock = 65538 := by
    rw [Server.lastBlock, size, length]
    decide
  have small : server.file.length < 2 ^ 32 := by
    rw [length]
    decide
  have more : 65536 + 1 < server.lastBlock := by
    rw [last]
    decide
  obtain ⟨events, transfer, run, loading, taken, current, running⟩ :
      ∃ events transfer, Run (Transfer.Step server options)
          (Transfer.start server options ourPort client) events transfer ∧
        transfer.Loading server 65537 ∧ transfer.taken = 65537 ∧ transfer.current = 65538 ∧
        transfer.client.netState = .goOn := delivered_in_order direct small more
  have lateLength : (server.body 65536).length = 512 := by
    rw [Server.body, List.length_take, List.length_drop, length, size]
    decide
  have lastLength : (server.body 65538).length = 0 := by
    rw [Server.body, List.length_take, List.length_drop, length, size]
    decide
  have lastBlock : transfer.client.lastBlock = 1 := by
    rw [loading.lastBlock, taken]
    decide
  have offset : transfer.client.blockWrapOffset = 2 ^ 25 := by
    rw [loading.counts.offset, taken, loading.blkSize, size]
    decide
  have blkSize : transfer.client.blkSize = 512 := loading.blkSize.trans size
  have late : (transfer.receiveBlock server options 65536).client = _ :=
    Transfer.receiveBlock_client loading.heard loading.state
  have wraps : 65536 % tftpSequenceSize = 0 := rfl
  simp only [updateBlockNumber, wraps, lastBlock, ne_eq, one_ne_zero, not_false_eq_true, and_self,
    if_true, takeBlock_fresh, loading.state, zero_ne_one, lateLength, blkSize, lt_irrefl, if_false,
    offset, running] at late
  have ends :
      ((transfer.receiveBlock server options 65536).receiveBlock server options 65538).client = _ :=
    Transfer.receiveBlock_client (by rw [late]; exact .inr loading.remotePort) (by rw [late])
  have second : 65538 % tftpSequenceSize = 2 := rfl
  simp only [late, updateBlockNumber, second, OfNat.ofNat_ne_zero, false_and, if_false,
    takeBlock_fresh, ne_eq, not_false_eq_true, lastLength] at ends
  have lateStep : Transfer.Step server options transfer (.data 65536) _ :=
    .data running (by decide) (by omega)
  have endStep : Transfer.Step server options (transfer.receiveBlock server options 65536)
      (.data 65538) _ := .data (by rw [late]) (by decide) current.ge
  refine ⟨_, _, run.append (.cons lateStep (.cons endStep (.nil _))), ?_, ?_⟩
  · rw [ends]
    rfl
  · rw [ends, length]
    refine lt_of_lt_of_le ?_ (le_max_right _ _)
    dsimp only [Client.place]
    decide

end LateBlock

theorem late_block_spoils_transfer :
    ∃ events final,
      Run (Transfer.Step (plainServer (List.replicate (65537 * 512) 0)) exampleOptions)
        (Transfer.start
          (plainServer (List.replicate (65537 * 512) 0)) exampleOptions 1024 idleClient)
        events final ∧
      final.client.netState = .success ∧
      (plainServer (List.replicate (65537 * 512) 0)).file.length < final.client.bootFileXferSize :=
  late_block_misplaced rfl List.length_replicate

end UBootV210.Net.Tftp
