import UBootV210.Net.NfsSession

/-! # Exactness of an NFS transfer

A reply with the RPC id of the last request answers the request of the current state, so
the bytes that are stored are the ones of the file at the offset of the client. -/

namespace UBootV210.Net.Nfs

open StaticBuffer PrefixCopy

variable {server : Server} {bootFile : CString} {session : Session} {client : Client}
  {pkt : List UInt8} {index : Nat} {call : Request}

theorem getD_linkText (nonempty : linkText pkt ≠ []) : (linkText pkt).getD 0 0 = pkt.getD 32 0 := by
  have positive : 0 < data pkt 1 := by
    apply Nat.pos_of_ne_zero
    intro zero
    exact nonempty (by simp [linkText, zero])
  simp [linkText, List.getD_eq_getElem?_getD, List.getElem?_take_of_lt positive]

theorem slash_mem_linkPath {path : List UInt8} (nulFree : 0 ∉ path) (nonempty : link ≠ []) :
    47 ∈ linkPath (link.getD 0 0) path link := by
  rw [linkPath, cText, cText]
  split
  · rw [List.takeWhile_append_of_pos (by grind)]
    simp
  · rename_i absolute
    obtain ⟨first, rest, rfl⟩ := List.exists_cons_of_ne_nil nonempty
    simp_all

theorem nul_notMem_linkPath {path : List UInt8} : 0 ∉ linkPath first path link := by
  rw [linkPath, cText, cText]
  split
  · intro member
    simpa using List.mem_takeWhile_imp member
  · intro member
    simpa using List.mem_takeWhile_imp member

theorem linkPath_length_le {path : List UInt8} :
    (linkPath (pkt.getD 32 0) path (linkText pkt)).length ≤ linkPlace pkt path + data pkt 1 := by
  have taken : (linkText pkt).length ≤ data pkt 1 := List.length_take_le _ _
  rw [linkPath, linkPlace, cText, cText]
  split
  · have cut := (List.takeWhile_sublist (l := path ++ 47 :: linkText pkt) (· ≠ 0)).length_le
    simp only [List.length_append, List.length_cons] at cut
    omega
  · have cut := (List.takeWhile_sublist (l := linkText pkt) (· ≠ 0)).length_le
    omega

/-- The name that is being looked up leads where the name of the boot file leads, and there
is room for it in a request. -/
structure Named (server : Server) (bootFile : CString) (path filename : List UInt8) : Prop where
  goal : ∀ handle, server.Denotes path filename handle → server.Boots bootFile handle
  nulFree : 0 ∉ path
  path_le : path.length ≤ nameRoom
  filename_le : filename.length ≤ nameRoom

theorem exists_named {path : List UInt8} (slash : 47 ∈ path) (nulFree : 0 ∉ path)
    (room : path.length ≤ nameRoom)
    (goal : ∀ directory name handle, splitNames path = .ok (directory, name) →
      server.Denotes directory name handle → server.Boots bootFile handle) :
    ∃ directory name, splitNames path = .ok (directory, name) ∧
      Named server bootFile directory name := by
  obtain ⟨directory, name, equal, _, split⟩ :=
    splitNames_of_mem slash (room.trans_lt (by decide))
  rw [equal, List.length_append, List.length_cons] at room
  refine ⟨directory, name, split, fun handle => goal _ _ handle split, ?_, by omega, by omega⟩
  intro member
  exact nulFree (equal ▸ List.mem_append_left _ member)

structure Client.OnCourse (server : Server) (bootFile : CString) (client : Client) : Prop where
  named : Named server bootFile client.path client.filename
  stage : Stage server client
  unfinished : client.state ≠ .umountReq → client.downloadState ≠ .success

/-- The last request is the one of the current state. -/
structure Session.Sound (server : Server) (bootFile : CString) (session : Session) : Prop where
  ids : session.client.rpcId = session.log.length % 2 ^ 32
  last : session.client.state ≠ .umountReq → session.log.getLast? = request session.client
  course : session.client.OnCourse server bootFile

def Session.GoesOn (server : Server) (bootFile : CString) (session : Session)
    (handled : Exec (Client × List Request)) : Prop :=
  Exec.Returns handled fun result => (session.after result).Sound server bootFile

theorem request_isSome (state : client.state ≠ .umountReq) : (request client).isSome := by
  rw [request]
  cases known : client.state with
  | umountReq => exact absurd known state
  | _ => rfl

theorem Named.size_le (named : Named server bootFile client.path client.filename)
    (called : request client = some call) : call.size ≤ txRoom := by
  have path_le := named.path_le
  have filename_le := named.filename_le
  rw [nameRoom] at path_le filename_le
  rw [request] at called
  split at called
  case h_4 =>
    split at called
    · cases called
      decide
    · cases called
  all_goals
    cases called
    simp only [Request.size, txRoom, nfsFhsize]
    omega

theorem Session.goesOn_send (session : Session) (client : Client)
    (ids : client.rpcId = session.log.length % 2 ^ 32)
    (course : client.OnCourse server bootFile) :
    session.GoesOn server bootFile (nfsSend client) := by
  rw [nfsSend]
  cases called : request client with
  | some call =>
    dsimp only
    rw [if_pos (course.named.size_le called)]
    change (session.after _).Sound server bootFile
    refine ⟨?_, ?_, course.named, course.stage, course.unfinished⟩
    · change (client.rpcId + 1) % 2 ^ 32 = (session.log ++ [call]).length % 2 ^ 32
      rw [ids, List.length_append, List.length_singleton, Nat.mod_add_mod]
    · intro _
      change (session.log ++ [call]).getLast? = request { client with rpcId := _ }
      rw [List.getLast?_concat, ← called]
      rfl
  | none =>
    change (session.after _).Sound server bootFile
    refine ⟨?_, ?_, course⟩
    · change client.rpcId = (session.log ++ []).length % 2 ^ 32
      rw [List.append_nil, ids]
    · intro state
      have some := request_isSome state
      change (request client).isSome at some
      rw [called] at some
      cases some

theorem Session.Sound.idle (sound : session.Sound server bootFile) (changed : Client)
    (ids : changed.rpcId = session.client.rpcId)
    (last : changed.state ≠ .umountReq → session.log.getLast? = request changed)
    (course : changed.OnCourse server bootFile) :
    session.GoesOn server bootFile (.ok (changed, [])) := by
  change (session.after (changed, [])).Sound server bootFile
  rw [Session.after, List.append_nil]
  exact ⟨ids.trans sound.ids, last, course⟩

theorem checkedReply_cases (fits : pkt.length ≤ rpcPktSize) :
    checkedReply bad update pkt pkt.length client = .ok (client, -nfsRpcErr) ∨
      checkedReply bad update pkt pkt.length client = .ok (client, -nfsRpcDrop) ∨
      (replyId pkt = client.rpcId ∧ bad pkt = false ∧
        checkedReply bad update pkt pkt.length client =
          (update pkt client).map (·, (0 : Int))) := by
  rw [checkedReply, copyReply, if_pos fits, List.take_length, Exec.ok_bind, checkId]
  by_cases later : replyId pkt > client.rpcId
  · rw [if_pos later]
    exact .inl rfl
  · rw [if_neg later]
    by_cases earlier : replyId pkt < client.rpcId
    · rw [if_pos earlier]
      exact .inr (.inl rfl)
    · rw [if_neg earlier]
      cases isBad : bad pkt with
      | true => exact .inl (if_pos rfl)
      | false =>
        refine .inr (.inr ⟨by omega, rfl, ?_⟩)
        cases update pkt client with
        | error fault => rfl
        | ok updated => rfl

/-- Without a verifier the results are where the client reads them. -/
theorem Server.Answers.result_eq (answers : server.Answers call pkt) (plain : verifier pkt = 0) :
    verifierSize pkt = 0 ∧ ∀ index, result pkt index = word pkt (5 + index) := by
  have size : verifierSize pkt = 0 := by
    rw [verifierSize, answers.plain plain]
  refine ⟨size, fun index => ?_⟩
  rw [result, size]

section

variable (sound : session.Sound server bootFile)
include sound

/-- A reply with the RPC id of the last request answers the request of the state. -/
theorem Session.Sound.current (state : session.client.state ≠ .umountReq)
    (known : session.log[index]? = some call) (last : index + 1 = session.log.length) :
    request session.client = some call := by
  rw [← sound.last state, List.getLast?_eq_getElem?, ← last, Nat.add_sub_cancel, known]

theorem Session.Sound.giveUp (state : session.client.state ≠ .umountReq) :
    session.GoesOn server bootFile (enter .umountReq session.client) := by
  refine session.goesOn_send _ sound.ids ⟨sound.course.named, ?_, fun other => absurd rfl other⟩
  intro finished
  exact absurd finished (sound.course.unfinished state)

theorem Session.Sound.dispatch (fits : pkt.length ≤ rpcPktSize)
    (onFailed : session.GoesOn server bootFile (onError session.client))
    (onDone : replyId pkt = session.client.rpcId → bad pkt = false →
      ∃ updated, update pkt session.client = .ok updated ∧
        session.GoesOn server bootFile (done updated)) :
    session.GoesOn server bootFile
      (Nfs.dispatch (checkedReply bad update pkt pkt.length session.client) onError done) := by
  rcases checkedReply_cases fits with isFailed | isDropped | ⟨same, good, isDone⟩
  · rw [isFailed]
    exact onFailed
  · rw [isDropped]
    exact sound.idle _ rfl sound.last sound.course
  · obtain ⟨updated, isUpdated, goesOn⟩ := onDone same good
    rw [isDone, isUpdated]
    exact goesOn

theorem Session.Sound.portReply (fits : pkt.length ≤ rpcPktSize)
    (nothing : session.client.bootFileXferSize = 0) (state : session.client.state ≠ .umountReq)
    {follows : State} (order : follows = .prclookupProgNfsReq ∨ follows = .mountReq) :
    session.GoesOn server bootFile
      (Nfs.dispatch (rpcLookupReply pkt pkt.length session.client) (enter follows)
        (enter follows)) := by
  have stage : Stage server { session.client with state := follows } := by
    rcases order with rfl | rfl
    · exact nothing
    · exact nothing
  have enters := session.goesOn_send { session.client with state := follows } sound.ids
    ⟨sound.course.named, stage, fun _ => sound.course.unfinished state⟩
  exact sound.dispatch fits enters fun _ _ => ⟨_, rfl, enters⟩

end

/-! ## Replies to reads -/

theorem handleRead_of_neg (negative : code < 0)
    (other : code ≠ -nfserrIsdir ∧ code ≠ -nfserrInval) :
    handleRead (client, code) = enter .umountReq client := by
  rw [handleRead, if_neg (not_lt.mpr negative.le), if_neg (by simp [other]), if_neg negative.ne]

theorem handleRead_cases (plain : replyId pkt = client.rpcId → verifier pkt = 0) :
    handleRead (nfsReadReply pkt client) = enter .umountReq client ∨
      (replyId pkt = client.rpcId ∧ rstatus pkt = 0 ∧ astatus pkt = 0 ∧
        nfsReadReply pkt client = if data pkt 0 = 0 then
            (storeBlock (pkt.drop replySize) client.offset (data pkt 18) client,
              toInt (data pkt 18))
          else (client, toInt ((2 ^ 32 - data pkt 0) % 2 ^ 32))) := by
  rw [nfsReadReply, checkId]
  by_cases later : replyId pkt > client.rpcId
  · rw [if_pos later]
    exact .inl (handleRead_of_neg (by decide) (by decide))
  by_cases earlier : replyId pkt < client.rpcId
  · rw [if_neg later, if_pos earlier]
    exact .inl (handleRead_of_neg (by decide) (by decide))
  rw [if_neg later, if_neg earlier]
  have same : replyId pkt = client.rpcId := by omega
  have failed : handleRead (client, -9999) = enter .umountReq client :=
    handleRead_of_neg (by decide) (by decide)
  by_cases rejected : rstatus pkt = 0
  · by_cases executed : astatus pkt = 0
    · simp [Nfs.failed, refused, rejected, executed, plain same, same]
    · simp [Nfs.failed, refused, rejected, executed, failed]
  · simp [Nfs.failed, refused, rejected, failed]

theorem toInt_of_lt (less : value < 2 ^ 31) : toInt value = value := if_pos less

theorem toInt_neg (positive : 0 < value) (less : value < 2 ^ 31) :
    toInt ((2 ^ 32 - value) % 2 ^ 32) = - value := by
  rw [toInt, if_neg (by omega)]
  omega

variable {file : List UInt8} {count : Nat}

theorem storeBlock_loaded (loaded : HoldsUpTo client.memory file client.offset)
    (size : client.bootFileXferSize = client.offset) (inside : client.offset + count ≤ file.length)
    (small : file.length < 2 ^ 32)
    (part : source.take count = (file.drop client.offset).take count) :
    HoldsUpTo (storeBlock source client.offset count client).memory file (client.offset + count) ∧
      (storeBlock source client.offset count client).bootFileXferSize = client.offset + count := by
  constructor
  · have held : HoldsUpTo (putBytes client.memory client.offset
        ((file.drop client.offset).take count)) file
        (max client.offset (client.offset + count)) := loaded.putBytes_part le_rfl
    rw [Nat.max_eq_right (Nat.le_add_right _ _), ← part] at held
    exact held
  · rw [storeBlock, size, Nat.mod_eq_of_lt (by omega)]
    dsimp only
    split <;> omega

section Reads

variable (sound : session.Sound server bootFile) (state : session.client.state = .readReq)
  (results : server.Results
    (.read session.client.filefh session.client.offset session.client.len) pkt)
  (isStatus : result pkt 1 = data pkt 0)

include sound state results isStatus

theorem Session.Sound.readError (status : data pkt 0 ≠ 0) : session.GoesOn server bootFile
      (handleRead (session.client, toInt ((2 ^ 32 - data pkt 0) % 2 ^ 32))) := by
  have notUmount : session.client.state ≠ .umountReq := by
    rw [state]
    decide
  have stage := sound.course.stage
  rw [Stage, state] at stage
  obtain ⟨directory, entry, _, loaded⟩ := stage
  rw [Server.Results, isStatus] at results
  have less : data pkt 0 < 2 ^ 31 := by
    split at results
    · rw [ReadResults, isStatus] at results
      exact results.elim (·.2.1) fun read => absurd read.1 status
    · exact results.2
  rw [toInt_neg (Nat.pos_of_ne_zero status) less]
  by_cases other : data pkt 0 ≠ 21 ∧ data pkt 0 ≠ 22
  · rw [handleRead_of_neg (by omega) (by simp only [nfserrIsdir, nfserrInval]; omega)]
    exact sound.giveUp notUmount
  -- The server says of no file that it is a directory or a link.
  have content : server.content session.client.filefh = none := by
    split at results
    · rw [ReadResults, isStatus] at results
      omega
    · assumption
  rw [Loaded, content] at loaded
  rw [handleRead, if_neg (by dsimp only; omega),
    if_pos (by simp only [nfserrIsdir, nfserrInval]; omega)]
  exact session.goesOn_send _ sound.ids ⟨sound.course.named, ⟨loaded, directory, entry, content⟩,
    fun _ => sound.course.unfinished notUmount⟩

theorem Session.Sound.readData (size : verifierSize pkt = 0)
    (isCount : result pkt 19 = data pkt 18) (status : data pkt 0 = 0) :
    session.GoesOn server bootFile (handleRead
      (storeBlock (pkt.drop replySize) session.client.offset (data pkt 18) session.client,
        toInt (data pkt 18))) := by
  have stage := sound.course.stage
  rw [Stage, state] at stage
  obtain ⟨directory, entry, len, loaded⟩ := stage
  cases content : server.content session.client.filefh with
  | none =>
    rw [Server.Results, content] at results
    exact absurd (isStatus.trans status) results.1
  | some file =>
    rw [Server.Results, content] at results
    change ReadResults file _ _ pkt at results
    rw [ReadResults, isStatus, isCount, size, len] at results
    rcases results with ⟨nonzero, _⟩ | ⟨_, count_le, inside, part, more⟩
    · exact absurd status nonzero
    rw [Loaded, content] at loaded
    obtain ⟨holds, xferSize, offset_le⟩ := loaded
    have small := server.small _ _ content
    have fits : session.client.offset + data pkt 18 ≤ file.length := by
      omega
    obtain ⟨held, stored⟩ := storeBlock_loaded holds xferSize fits small part
    rw [toInt_of_lt (count_le.trans_lt (by decide)), handleRead]
    dsimp only
    by_cases last : data pkt 18 = 0
    · rw [if_neg (by omega), if_neg (by simp only [nfserrIsdir, nfserrInval]; omega),
        if_pos (by omega)]
      have length : session.client.offset + data pkt 18 = file.length := by
        omega
      rw [length] at held stored
      exact session.goesOn_send _ sound.ids ⟨sound.course.named,
        fun _ => ⟨.entry directory entry, file, content, held, stored⟩,
        fun other => absurd rfl other⟩
    · have next : ((storeBlock (pkt.drop replySize) session.client.offset (data pkt 18)
          session.client).offset + data pkt 18) % 2 ^ 32 = session.client.offset + data pkt 18 :=
        Nat.mod_eq_of_lt (fits.trans_lt small)
      rw [if_pos (by omega), Int.toNat_natCast, next]
      refine session.goesOn_send _ sound.ids ⟨sound.course.named, ?_, sound.course.unfinished⟩
      simp only [Stage, storeBlock, state, Loaded, content]
      exact ⟨directory, entry, len, held, stored, fits⟩

end Reads

section Replies

variable (sound : session.Sound server bootFile) (known : session.log[index]? = some call)
  (id : replyId pkt = (index + 1) % 2 ^ 32) (answers : server.Answers call pkt)
  (timely : session.TimelyReply index pkt)

include sound known id answers timely

theorem Session.Sound.answered (state : session.client.state ≠ .umountReq)
    (fits : pkt.length ≤ rpcPktSize) {current : Request}
    (isCurrent : request session.client = some current)
    (onDone : index + 1 = session.log.length → server.Results current pkt → result pkt 1 = 0 →
      verifierSize pkt = 0 → result pkt 2 = data pkt 1 →
      ∃ updated, update pkt session.client = .ok updated ∧
        session.GoesOn server bootFile (done updated)) :
    session.GoesOn server bootFile (Nfs.dispatch
      (checkedReply failed update pkt pkt.length session.client) (enter .umountReq) done) := by
  apply sound.dispatch fits (sound.giveUp state)
  intro same good
  obtain ⟨⟨rejected, plain, executed⟩, status⟩ :
      (rstatus pkt = 0 ∧ verifier pkt = 0 ∧ astatus pkt = 0) ∧ data pkt 0 = 0 := by
    simpa [failed, refused] using good
  obtain ⟨size, results⟩ := answers.result_eq plain
  have last := timely.once (id ▸ same)
  have isCall := sound.current state known last
  rw [isCurrent] at isCall
  rw [Option.some.inj isCall] at onDone
  exact onDone last (answers.results rejected ((results 0).trans executed))
    ((results 1).trans status) size (results 2)

theorem Session.Sound.mountReply (state : session.client.state = .mountReq) :
    session.GoesOn server bootFile (Nfs.dispatch (nfsMountReply pkt pkt.length session.client)
      (enter .umountReq) (enter .lookupReq)) := by
  have stage := sound.course.stage
  rw [Stage, state] at stage
  have other : session.client.state ≠ .umountReq := by simp [state]
  apply sound.answered known id answers timely other (timely.fits (by simp [state]))
    (by rw [request, state])
  intro _ results status size _
  have directory := results status
  rw [size] at directory
  exact ⟨_, rfl, session.goesOn_send _ sound.ids
    ⟨sound.course.named, ⟨stage, directory⟩, fun _ => sound.course.unfinished other⟩⟩

theorem Session.Sound.lookupReply (state : session.client.state = .lookupReq) :
    session.GoesOn server bootFile (Nfs.dispatch (nfsLookupReply pkt pkt.length session.client)
      (enter .umountReq)
      (fun replied => enter .readReq { replied with offset := 0, len := nfsReadSize })) := by
  have stage := sound.course.stage
  rw [Stage, state] at stage
  have other : session.client.state ≠ .umountReq := by simp [state]
  apply sound.answered known id answers timely other (timely.fits (by simp [state]))
    (by rw [request, state])
  intro _ results status size _
  have entry := results status
  rw [size] at entry
  refine ⟨_, rfl, session.goesOn_send _ sound.ids ⟨sound.course.named,
    ⟨stage.2, entry, rfl, ?_⟩, fun _ => sound.course.unfinished other⟩⟩
  rw [Loaded]
  split
  · exact ⟨.zero, stage.1, Nat.zero_le _⟩
  · exact stage.1

theorem Session.Sound.readlinkReply (state : session.client.state = .readlinkReq) :
    session.GoesOn server bootFile (Nfs.dispatch (nfsReadlinkReply pkt pkt.length session.client)
      (enter .umountReq) (takeNames .mountReq)) := by
  have stage := sound.course.stage
  rw [Stage, state] at stage
  obtain ⟨nothing, directory, entry, link⟩ := stage
  have other : session.client.state ≠ .umountReq := by simp [state]
  have fits := timely.fits (by simp [state])
  apply sound.answered known id answers timely other fits (by rw [request, state])
  intro last results status size length
  obtain ⟨target, whole⟩ := results status
  rw [size, length] at target whole
  have nonempty : linkText pkt ≠ [] := server.linked _ _ target
  have room := timely.room state last
  have followed : followLink pkt session.client = .ok { session.client with
      path := linkPath (pkt.getD 32 0) session.client.path (linkText pkt) } :=
    if_pos ⟨by omega, room.trans_lt (by decide)⟩
  have slash := slash_mem_linkPath sound.course.named.nulFree nonempty
  rw [getD_linkText nonempty] at slash
  obtain ⟨behind, file, split, named⟩ : ∃ behind file,
      splitNames (linkPath (pkt.getD 32 0) session.client.path (linkText pkt)) =
        .ok (behind, file) ∧ Named server bootFile behind file := by
    refine exists_named slash nul_notMem_linkPath (linkPath_length_le.trans room) ?_
    intro behind file handle split denotes
    rw [← getD_linkText nonempty] at split
    exact sound.course.named.goal handle (.link directory entry link target split denotes)
  refine ⟨_, followed, ?_⟩
  simp only [takeNames, split, Exec.ok_bind]
  exact session.goesOn_send _ sound.ids ⟨named, nothing, fun _ => sound.course.unfinished other⟩

theorem Session.Sound.readReply (state : session.client.state = .readReq) :
    session.GoesOn server bootFile (handleRead (nfsReadReply pkt session.client)) := by
  have notUmount : session.client.state ≠ .umountReq := by
    rw [state]
    decide
  have isPlain : replyId pkt = session.client.rpcId → verifier pkt = 0 := fun same =>
    timely.plain state (timely.once (id ▸ same))
  rcases handleRead_cases isPlain with fails | ⟨same, rejected, executed, returns⟩
  · rw [fails]
    exact sound.giveUp notUmount
  obtain ⟨size, place⟩ := answers.result_eq (isPlain same)
  have isCurrent := sound.current notUmount known (timely.once (id ▸ same))
  rw [request, state] at isCurrent
  have results := answers.results rejected ((place 0).trans executed)
  rw [← Option.some.inj isCurrent] at results
  rw [returns]
  split
  · rename_i status
    exact sound.readData state results (place 1) size (place 19) status
  · rename_i status
    exact sound.readError state results (place 1) status

end Replies

theorem Session.Sound.umountReply (sound : session.Sound server bootFile)
    (fits : pkt.length ≤ rpcPktSize) (state : session.client.state = .umountReq) :
    session.GoesOn server bootFile (Nfs.dispatch (nfsUmountallReply pkt pkt.length session.client)
        (fun replied => .ok ({ replied with netState := .fail }, []))
        (fun replied => .ok ({ replied with netState := replied.downloadState }, []))) := by
  have stage := sound.course.stage
  rw [Stage, state] at stage
  have keeps (mounted : Bool) (dirfh : List UInt8) (netState : NetState) :
      session.GoesOn server bootFile (.ok ({ session.client with
        fsMounted := mounted, dirfh := dirfh, netState := netState }, [])) := by
    refine sound.idle _ rfl (absurd state) ⟨sound.course.named, ?_, absurd state⟩
    rw [Stage, state]
    exact stage
  exact sound.dispatch fits (keeps _ _ _) fun _ _ => ⟨_, rfl, keeps _ _ _⟩

theorem Session.Sound.reply (sound : session.Sound server bootFile)
    (known : session.log[index]? = some call) (id : replyId pkt = (index + 1) % 2 ^ 32)
    (answers : server.Answers call pkt) (timely : session.TimelyReply index pkt) :
    session.GoesOn server bootFile (nfsHandler pkt nfsOurPort pkt.length session.client) := by
  rw [nfsHandler, if_neg (not_not_intro rfl), handleReply]
  have stage := sound.course.stage
  rw [Stage] at stage
  have fits := timely.fits
  cases state : session.client.state with
  | prclookupProgMountReq =>
    rw [state] at stage fits
    exact sound.portReply (fits (by decide)) stage (by rw [state]; decide) (.inl rfl)
  | prclookupProgNfsReq =>
    rw [state] at stage fits
    exact sound.portReply (fits (by decide)) stage (by rw [state]; decide) (.inr rfl)
  | mountReq => exact sound.mountReply known id answers timely state
  | umountReq => exact sound.umountReply (fits (by rw [state]; decide)) state
  | lookupReq => exact sound.lookupReply known id answers timely state
  | readReq => exact sound.readReply known id answers timely state
  | readlinkReq => exact sound.readlinkReply known id answers timely state

theorem Session.Sound.timeout (sound : session.Sound server bootFile) :
    session.GoesOn server bootFile (nfsTimeout session.client) := by
  have course := sound.course
  rw [nfsTimeout]
  split
  · exact sound.idle _ rfl sound.last ⟨course.named, course.stage, course.unfinished⟩
  · exact session.goesOn_send _ sound.ids ⟨course.named, course.stage, course.unfinished⟩

section

variable (slash : 47 ∈ bootFile.bytes) (room : bootFile.length ≤ nameRoom)
include slash room

theorem Session.goesOn_start (ids : session.client.rpcId = session.log.length % 2 ^ 32) :
    session.GoesOn server bootFile (nfsStart bootFile session.client) := by
  obtain ⟨directory, name, split, named⟩ : ∃ directory name,
      splitNames bootFile.bytes = .ok (directory, name) ∧ Named server bootFile directory name :=
    exists_named slash bootFile.nulFree room fun directory name _ split denotes =>
      ⟨directory, name, split, denotes⟩
  rw [nfsStart, if_pos (room.trans_lt (by decide)), takeNames]
  simp only [split, Exec.ok_bind]
  refine session.goesOn_send _ ids ⟨named, rfl, ?_⟩
  intro _ finished
  cases finished

theorem Session.Sound.next {event : Event} (sound : session.Sound server bootFile)
    (comes : session.MayCome server event) (timely : session.Timely event) :
    Exec.Returns (session.next bootFile event) (Sound server bootFile) := by
  have mapped {handled} (goesOn : session.GoesOn server bootFile handled) :
      Exec.Returns (handled.map session.after) (Sound server bootFile) := by
    obtain ⟨result, rfl, isSound⟩ := goesOn.exists
    exact isSound
  cases event with
  | reply index pkt =>
    obtain ⟨_, id, call, known, answers⟩ := comes
    exact mapped (sound.reply known id answers timely)
  | timeout => exact mapped sound.timeout
  | restart => exact mapped (goesOn_start slash room sound.ids)

end

/-- In every run of timely steps every handler returns, and a download that is reported as a
success has put the file that the boot file's name denotes into memory; the size is its
length. -/
theorem nfs_download_exact (server : Server) (bootFile : CString) (before : Session)
    (slash : 47 ∈ bootFile.bytes) (room : bootFile.length ≤ nameRoom)
    (ids : before.client.rpcId = before.log.length % 2 ^ 32) :
    ∃ started, nfsStart bootFile before.client = .ok started ∧
      ∀ events final, Run (fun session event next =>
          session.Step server bootFile event next ∧ session.Timely event)
          (before.after started) events final →
        (∀ event, final.MayCome server event → final.Timely event →
          ∃ next, final.next bootFile event = .ok next) ∧
        (final.client.downloadState = .success → ∃ file, server.Boots bootFile final.client.filefh ∧
            server.content final.client.filefh = some file ∧
            (∀ (place : Nat) (inside : place < file.length),
              final.client.memory place = file[place]) ∧
            final.client.bootFileXferSize = file.length) := by
  have start : before.GoesOn server bootFile (nfsStart bootFile before.client) :=
    Session.goesOn_start slash room ids
  obtain ⟨started, isStarted, startSound⟩ := start.exists
  refine ⟨started, isStarted, fun events final run => ?_⟩
  have sound : final.Sound server bootFile := by
    refine run.invariant (fun step sound => ?_) startSound
    obtain ⟨⟨comes, isNext⟩, timely⟩ := step
    have returns := sound.next slash room comes timely
    rw [isNext] at returns
    exact returns
  constructor
  · intro event comes timely
    obtain ⟨next, isNext, _⟩ := (sound.next slash room comes timely).exists
    exact ⟨next, isNext⟩
  intro success
  have state : final.client.state = .umountReq := by
    by_contra other
    exact sound.course.unfinished other success
  have stage := sound.course.stage
  rw [Stage, state] at stage
  obtain ⟨denotes, file, content, holds, size⟩ := stage success
  exact ⟨file, sound.course.named.goal _ denotes, content,
    fun place inside => holds place inside inside, size⟩

/-! ## Examples -/

/-- The link `/a` leads to the file `b` beside it. -/
def exampleServer : Server where
  mount := fun _ => some (List.replicate nfsFhsize 5)
  lookup := fun _ name => some (List.replicate nfsFhsize (if name = [97] then 6 else 7))
  readlink := fun handle => if handle.getD 0 0 = 6 then some [98] else none
  content := fun handle => if handle.getD 0 0 = 6 then none else some [1, 2, 3, 4]
  linked := by
    intro handle link found
    split at found
    · cases found
      decide
    · cases found
  small := by
    intro handle file content
    split at content
    · cases content
    · cases content
      decide

def idleSession : Session where
  log := []
  client :=
    { fsMounted := false
      rpcId := 0
      offset := 0
      len := 0
      dirfh := []
      filefh := []
      downloadState := .fail
      timeoutCount := 0
      state := .prclookupProgMountReq
      filename := []
      path := []
      bootFileXferSize := 0
      memory := fun _ => 0
      netState := .goOn }

def exampleFile : CString := ⟨[47, 97], by decide⟩

def startedSession (bootFile : CString) : Session :=
  match nfsStart bootFile idleSession.client with
  | .ok handled => idleSession.after handled
  | .error _ => idleSession

def exampleReply (id flavor : Nat) (results : List UInt8) : List UInt8 :=
  [0, 0, 0, UInt8.ofNat id, 0, 0, 0, 1, 0, 0, 0, 0, 0, 0, 0, UInt8.ofNat flavor,
    0, 0, 0, 0, 0, 0, 0, 0] ++ results

def handleResults (byte : UInt8) : List UInt8 := [0, 0, 0, 0] ++ List.replicate nfsFhsize byte

def readResults (bytes : List UInt8) : List UInt8 :=
  List.replicate 72 0 ++ [0, 0, 0, UInt8.ofNat bytes.length] ++ bytes

def Session.deliver (session : Session) (pkt : List UInt8) : Session :=
  match nfsHandler pkt nfsOurPort pkt.length session.client with
  | .ok handled => session.after handled
  | .error _ => session

/-- The replies up to the one for the handle of the link, then `NFSERR_INVAL`, the link, and
the handle of the file. The second of them comes twice. -/
def openingReplies : List (Nat × List UInt8) :=
  [(0, exampleReply 1 0 [0, 0, 3, 0]), (1, exampleReply 2 0 [0, 0, 8, 1]),
    (1, exampleReply 2 0 [0, 0, 8, 1]), (2, exampleReply 3 0 (handleResults 5)),
    (3, exampleReply 4 0 (handleResults 6)), (4, exampleReply 5 0 [0, 0, 0, 22]),
    (5, exampleReply 6 0 [0, 0, 0, 0, 0, 0, 0, 1, 98]), (6, exampleReply 7 0 (handleResults 5)),
    (7, exampleReply 8 0 (handleResults 7))]

def openedSession : Session :=
  openingReplies.foldl (fun session reply => session.deliver reply.2) (startedSession exampleFile)

theorem openedSession_run : Run (fun session event next =>
      session.Step exampleServer exampleFile event next ∧ session.Timely event)
      (startedSession exampleFile) (openingReplies.map fun reply => .reply reply.1 reply.2)
      openedSession := by
  have timely {session : Session} {index pkt} (once : index + 1 = session.log.length ∨
        (index + 1) % 2 ^ 32 ≠ session.client.rpcId) (plain : verifier pkt = 0)
      (fits : pkt.length ≤ rpcPktSize)
      (room : linkPlace pkt session.client.path + data pkt 1 ≤ nameRoom ∨
        session.client.state ≠ .readlinkReq) : session.Timely (.reply index pkt) :=
    ⟨fun same => once.resolve_right (not_not_intro same), fun _ _ => plain, fun _ => fits,
      fun state _ => room.resolve_right (not_not_intro state)⟩
  have port {session : Session} {index pkt program} (goOn : session.client.netState = .goOn)
      (id : replyId pkt = (index + 1) % 2 ^ 32)
      (known : session.log[index]? = some (.getport program)) (plain : word pkt 4 = 0) :
      session.MayCome exampleServer (.reply index pkt) :=
    ⟨goOn, id, _, known, fun _ => plain, fun _ _ => trivial⟩
  refine .cons ⟨⟨port rfl rfl rfl rfl, rfl⟩, timely (.inl rfl) rfl (by decide) (.inr nofun)⟩ ?_
  refine .cons ⟨⟨port rfl rfl rfl rfl, rfl⟩, timely (.inl rfl) rfl (by decide) (.inr nofun)⟩ ?_
  refine .cons ⟨⟨port rfl rfl rfl rfl, rfl⟩, timely (.inr nofun) rfl (by decide) (.inr nofun)⟩ ?_
  refine .cons ⟨⟨⟨rfl, rfl, _, rfl, fun _ => rfl, fun _ _ _ => rfl⟩, rfl⟩,
    timely (.inl rfl) rfl (by decide) (.inr nofun)⟩ ?_
  refine .cons ⟨⟨⟨rfl, rfl, _, rfl, fun _ => rfl, fun _ _ _ => rfl⟩, rfl⟩,
    timely (.inl rfl) rfl (by decide) (.inr nofun)⟩ ?_
  refine .cons ⟨⟨⟨rfl, rfl, _, rfl, fun _ => rfl,
    fun _ _ => ⟨by decide +kernel, by decide +kernel⟩⟩, rfl⟩,
    timely (.inl rfl) rfl (by decide) (.inr nofun)⟩ ?_
  refine .cons ⟨⟨⟨rfl, rfl, _, rfl, fun _ => rfl, fun _ _ _ => ⟨rfl, by decide +kernel⟩⟩, rfl⟩,
    timely (.inl rfl) rfl (by decide) (.inl (by decide +kernel))⟩ ?_
  refine .cons ⟨⟨⟨rfl, rfl, _, rfl, fun _ => rfl, fun _ _ _ => rfl⟩, rfl⟩,
    timely (.inl rfl) rfl (by decide) (.inr nofun)⟩ ?_
  refine .cons ⟨⟨⟨rfl, rfl, _, rfl, fun _ => rfl, fun _ _ _ => rfl⟩, rfl⟩,
    timely (.inl rfl) rfl (by decide) (.inr nofun)⟩ ?_
  exact .nil _

/-- The link is followed, the file is read, and then its end. -/
theorem nfs_download_exact_small : ∃ events final,
      Run (fun session event next => session.Step exampleServer exampleFile event next)
        (startedSession exampleFile) events final ∧
      ∃ file, exampleServer.Boots exampleFile final.client.filefh ∧
        exampleServer.content final.client.filefh = some file ∧
        (∀ (place : Nat) (inside : place < file.length), final.client.memory place = file[place]) ∧
        final.client.bootFileXferSize = file.length := by
  have read : openedSession.Step exampleServer exampleFile
      (.reply 8 (exampleReply 9 0 (readResults [1, 2, 3, 4])))
      (openedSession.deliver (exampleReply 9 0 (readResults [1, 2, 3, 4]))) := by
    refine ⟨⟨rfl, rfl, _, rfl, fun _ => rfl, fun _ _ => .inr ?_⟩, rfl⟩
    decide +kernel
  have readEnd : (openedSession.deliver (exampleReply 9 0 (readResults [1, 2, 3, 4]))).Step
      exampleServer exampleFile (.reply 9 (exampleReply 10 0 (readResults [])))
      ((openedSession.deliver (exampleReply 9 0 (readResults [1, 2, 3, 4]))).deliver
        (exampleReply 10 0 (readResults []))) := by
    refine ⟨⟨rfl, rfl, _, rfl, fun _ => rfl, fun _ _ => .inr ?_⟩, rfl⟩
    decide +kernel
  have run := openedSession_run.append
    (.cons ⟨read, fun _ => rfl, fun _ _ => rfl, fun other => absurd rfl other, nofun⟩
      (.cons ⟨readEnd, fun _ => rfl, fun _ _ => rfl, fun other => absurd rfl other, nofun⟩
        (.nil _)))
  obtain ⟨started, isStarted, exactness⟩ :=
    nfs_download_exact exampleServer exampleFile idleSession (by decide) (by decide) rfl
  cases isStarted
  exact ⟨_, _, run.mono And.left, (exactness _ _ run).2 rfl⟩

/-- A read that is answered with another verifier than the empty one is taken for the end
of the file. -/
theorem verifier_ends_download : ∃ events final,
      Run (fun session event next => session.Step exampleServer exampleFile event next)
        (startedSession exampleFile) events final ∧
      final.client.downloadState = .success ∧ final.client.bootFileXferSize = 0 ∧
      exampleServer.content final.client.filefh = some [1, 2, 3, 4] := by
  have read : openedSession.Step exampleServer exampleFile
      (.reply 8 (exampleReply 9 2 (readResults [1, 2, 3, 4])))
      (openedSession.deliver (exampleReply 9 2 (readResults [1, 2, 3, 4]))) := by
    refine ⟨⟨rfl, rfl, _, rfl, nofun, fun _ _ => .inr ?_⟩, rfl⟩
    decide +kernel
  have run := (openedSession_run.mono And.left).append (.cons read (.nil _))
  exact ⟨_, _, run, rfl, rfl, rfl⟩

end UBootV210.Net.Nfs
