import UBootV210.Foundation.PrefixCopy
import UBootV210.Net.NfsPath

/-! # The NFS client

Model of net/nfs.c. A request is given by its procedure and arguments. Of its bytes only
their number is modelled, and the RPC id that the client counts. Messages on the console
are left out, and so are the ports that the port mapper names: they only say where the
next request goes. Where a packet ends early, the bytes behind it are taken as zero. -/

namespace UBootV210.Net.Nfs

open StaticBuffer

def nfsOurPort : Nat := 1000

def nfsRetryCount : Nat := 30

def nfsRpcErr : Int := 1

def nfsRpcDrop : Int := 124

def nfserrIsdir : Int := 21

def nfserrInval : Int := 22

def nfsFhsize : Nat := 32

def nfsReadSize : Nat := 1024

def replySize : Nat := 100

def rpcPktSize : Nat := 2048

/-- What is left of a transmit buffer behind the headers. -/
def txRoom : Nat := 1536 - (18 + 28)

inductive State
  | prclookupProgMountReq
  | prclookupProgNfsReq
  | mountReq
  | umountReq
  | lookupReq
  | readReq
  | readlinkReq
  deriving DecidableEq

/-- What the handlers say to the network loop. `startAgain` is a call of
`NetStartAgain`. -/
inductive NetState
  | goOn
  | startAgain
  | success
  | fail
  deriving DecidableEq

inductive Program
  | mount
  | nfs
  deriving DecidableEq

inductive Request
  | getport (program : Program)
  | mountAddentry (path : List UInt8)
  | umountall
  | lookup (directory name : List UInt8)
  | readlink (handle : List UInt8)
  | read (handle : List UInt8) (offset count : Nat)
  deriving DecidableEq

/-- `memory` is what lies behind `load_addr`. -/
structure Client where
  fsMounted : Bool
  rpcId : Nat
  offset : Nat
  len : Nat
  dirfh : List UInt8
  filefh : List UInt8
  downloadState : NetState
  timeoutCount : Nat
  state : State
  filename : List UInt8
  path : List UInt8
  bootFileXferSize : Nat
  memory : Nat → UInt8
  netState : NetState

def cText (bytes : List UInt8) : List UInt8 := bytes.takeWhile (· ≠ 0)

/-- The path behind a symbolic link in a directory. The first byte of the link is looked
at whatever its length is. -/
def linkPath (first : UInt8) (path link : List UInt8) : List UInt8 :=
  if first ≠ 47 then cText (path ++ 47 :: link) else cText link

def storeBlock (src : List UInt8) (offset len : Nat) (client : Client) : Client :=
  let newsize := (offset + len) % 2 ^ 32
  { client with
    memory := putBytes client.memory offset (src.take len)
    bootFileXferSize :=
      if client.bootFileXferSize < newsize then newsize else client.bootFileXferSize }

/-- The request of a state. Nothing is sent if there is nothing to unmount. -/
def request (client : Client) : Option Request :=
  match client.state with
  | .prclookupProgMountReq => some (.getport .mount)
  | .prclookupProgNfsReq => some (.getport .nfs)
  | .mountReq => some (.mountAddentry client.path)
  | .umountReq => if client.fsMounted then some .umountall else none
  | .lookupReq => some (.lookup client.dirfh client.filename)
  | .readReq => some (.read client.filefh client.offset client.len)
  | .readlinkReq => some (.readlink client.filefh)

/-- The bytes of a request: its header, the credentials, handles, numbers and texts. -/
def Request.size : Request → Nat
  | .getport _ => 24 + 32
  | .mountAddentry path => 24 + 36 + 4 + 4 * ((path.length + 3) / 4)
  | .umountall => 24 + 36
  | .lookup _ name => 24 + 36 + nfsFhsize + 4 + 4 * ((name.length + 3) / 4)
  | .readlink _ => 24 + 36 + nfsFhsize
  | .read _ _ _ => 24 + 36 + nfsFhsize + 12

def nfsSend (client : Client) : Exec (Client × List Request) :=
  match request client with
  | some call =>
      if call.size ≤ txRoom then
        .ok ({ client with rpcId := (client.rpcId + 1) % 2 ^ 32 }, [call])
      else
        .error .outOfBounds
  | none => .ok (client, [])

def enter (state : State) (client : Client) : Exec (Client × List Request) :=
  nfsSend { client with state := state }

/-! ## Replies -/

def word (pkt : List UInt8) (index : Nat) : Nat :=
  2 ^ 24 * (pkt.getD (4 * index) 0).toNat + 2 ^ 16 * (pkt.getD (4 * index + 1) 0).toNat +
    2 ^ 8 * (pkt.getD (4 * index + 2) 0).toNat + (pkt.getD (4 * index + 3) 0).toNat

def replyId (pkt : List UInt8) : Nat := word pkt 0

def rstatus (pkt : List UInt8) : Nat := word pkt 2

def verifier (pkt : List UInt8) : Nat := word pkt 3

def astatus (pkt : List UInt8) : Nat := word pkt 5

def data (pkt : List UInt8) (index : Nat) : Nat := word pkt (6 + index)

def dataHandle (pkt : List UInt8) : List UInt8 := (pkt.drop 28).take nfsFhsize

def toInt (value : Nat) : Int := if value < 2 ^ 31 then value else (value : Int) - 2 ^ 32

/-- The copy of a packet to `rpc_pkt`, whose size is not looked at. -/
def copyReply (pkt : List UInt8) (len : Nat) : Exec (List UInt8) :=
  if len ≤ rpcPktSize then .ok (pkt.take len) else .error .outOfBounds

def checkId (pkt : List UInt8) (client : Client) : Option Int :=
  if replyId pkt > client.rpcId then some (-nfsRpcErr)
  else if replyId pkt < client.rpcId then some (-nfsRpcDrop)
  else none

def refused (pkt : List UInt8) : Bool := rstatus pkt ≠ 0 ∨ verifier pkt ≠ 0 ∨ astatus pkt ≠ 0

def failed (pkt : List UInt8) : Bool := refused pkt || data pkt 0 != 0

/-- A reply that is copied, checked and then changes the client. -/
def checkedReply (bad : List UInt8 → Bool) (update : List UInt8 → Client → Exec Client)
    (pkt : List UInt8) (len : Nat) (client : Client) : Exec (Client × Int) := do
  let reply ← copyReply pkt len
  match checkId reply client with
  | some result => return (client, result)
  | none =>
      if bad reply then
        return (client, -1)
      else
        let updated ← update reply client
        return (updated, 0)

def rpcLookupReply : List UInt8 → Nat → Client → Exec (Client × Int) :=
  checkedReply refused fun _ client => .ok client

def nfsMountReply : List UInt8 → Nat → Client → Exec (Client × Int) :=
  checkedReply failed fun reply client =>
    .ok { client with fsMounted := true, dirfh := dataHandle reply }

def nfsUmountallReply : List UInt8 → Nat → Client → Exec (Client × Int) :=
  checkedReply refused fun _ client =>
    .ok { client with fsMounted := false, dirfh := List.replicate nfsFhsize 0 }

def nfsLookupReply : List UInt8 → Nat → Client → Exec (Client × Int) :=
  checkedReply failed fun reply client => .ok { client with filefh := dataHandle reply }

def linkText (pkt : List UInt8) : List UInt8 := (pkt.drop 32).take (data pkt 1)

/-- Where the text of a link goes in `nfs_path_buff`. -/
def linkPlace (pkt path : List UInt8) : Nat := if pkt.getD 32 0 ≠ 47 then path.length + 1 else 0

-- The text is copied with a NUL behind it. Neither its place nor its length is checked.
def followLink (reply : List UInt8) (client : Client) : Exec Client :=
  if 32 + data reply 1 ≤ rpcPktSize ∧ linkPlace reply client.path + data reply 1 < nfsPathSize then
    .ok { client with path := linkPath (reply.getD 32 0) client.path (linkText reply) }
  else
    .error .outOfBounds

def nfsReadlinkReply : List UInt8 → Nat → Client → Exec (Client × Int) :=
  checkedReply failed followLink

-- Unlike the other replies, a reply with a verifier and no error returns 0 here, and only
-- the part before the data is copied.
def nfsReadReply (pkt : List UInt8) (client : Client) : Client × Int :=
  match checkId pkt client with
  | some result => (client, result)
  | none =>
      if failed pkt then
        if rstatus pkt ≠ 0 then (client, -9999)
        else if astatus pkt ≠ 0 then (client, -9999)
        else (client, toInt ((2 ^ 32 - data pkt 0) % 2 ^ 32))
      else
        (storeBlock (pkt.drop replySize) client.offset (data pkt 18) client, toInt (data pkt 18))

def dispatch (replied : Exec (Client × Int))
    (onError done : Client → Exec (Client × List Request)) : Exec (Client × List Request) := do
  let (client, reply) ← replied
  if reply = -nfsRpcDrop then return (client, [])
  else if reply = -nfsRpcErr then onError client
  else done client

def handleRead (replied : Client × Int) : Exec (Client × List Request) :=
  if replied.2 > 0 then
    nfsSend { replied.1 with offset := (replied.1.offset + replied.2.toNat) % 2 ^ 32 }
  else if replied.2 = -nfserrIsdir ∨ replied.2 = -nfserrInval then
    enter .readlinkReq replied.1
  else if replied.2 = 0 then enter .umountReq { replied.1 with downloadState := .success }
  else enter .umountReq replied.1

def takeNames (state : State) (client : Client) : Exec (Client × List Request) := do
  let (directory, name) ← splitNames client.path
  enter state { client with filename := name, path := directory }

def handleReply (pkt : List UInt8) (len : Nat) (client : Client) : Exec (Client × List Request) :=
  match client.state with
  | .prclookupProgMountReq =>
      dispatch (rpcLookupReply pkt len client) (enter .prclookupProgNfsReq)
        (enter .prclookupProgNfsReq)
  | .prclookupProgNfsReq =>
      dispatch (rpcLookupReply pkt len client) (enter .mountReq) (enter .mountReq)
  | .mountReq => dispatch (nfsMountReply pkt len client) (enter .umountReq) (enter .lookupReq)
  | .umountReq =>
      dispatch (nfsUmountallReply pkt len client)
        (fun replied => .ok ({ replied with netState := .fail }, []))
        (fun replied => .ok ({ replied with netState := replied.downloadState }, []))
  | .lookupReq =>
      dispatch (nfsLookupReply pkt len client) (enter .umountReq)
        (fun replied => enter .readReq { replied with offset := 0, len := nfsReadSize })
  | .readlinkReq =>
      dispatch (nfsReadlinkReply pkt len client) (enter .umountReq) (takeNames .mountReq)
  | .readReq => handleRead (nfsReadReply pkt client)

def nfsHandler (pkt : List UInt8) (dest len : Nat) (client : Client) :
    Exec (Client × List Request) :=
  if dest ≠ nfsOurPort then .ok (client, []) else handleReply pkt len client

def nfsTimeout (client : Client) : Exec (Client × List Request) :=
  let counted := { client with timeoutCount := client.timeoutCount + 1 }
  if counted.timeoutCount > nfsRetryCount then .ok ({ counted with netState := .startAgain }, [])
  else nfsSend counted

/-- `bootFile` is the path that is copied to `nfs_path_buff`. `NetLoop` clears the size and the
state of the loop before it calls `NfsStart`. -/
def nfsStart (bootFile : CString) (client : Client) : Exec (Client × List Request) :=
  if bootFile.length < nfsPathSize then
    takeNames .prclookupProgMountReq { client with
      bootFileXferSize := 0
      netState := .goOn
      downloadState := .fail
      path := bootFile.bytes
      timeoutCount := 0 }
  else
    .error .outOfBounds

/-! ## Late replies -/

def Ignored (before : Client) (handled : Client × List Request) : Prop :=
  handled.2 = [] ∧ handled.1.state = before.state ∧ handled.1.offset = before.offset ∧
    handled.1.downloadState = before.downloadState ∧ handled.1.dirfh = before.dirfh ∧
    handled.1.filefh = before.filefh ∧ handled.1.bootFileXferSize = before.bootFileXferSize

section

variable {pkt : List UInt8} {len : Nat} {client : Client}

theorem replyId_take (whole : 4 ≤ len) : replyId (pkt.take len) = replyId pkt := by
  have byte (index : Nat) (inside : index < 4) :
      (pkt.take len).getD index 0 = pkt.getD index 0 := by
    rw [List.getD_eq_getElem?_getD, List.getD_eq_getElem?_getD, List.getElem?_take_of_lt (by omega)]
  simp only [replyId, word, byte _ (by decide : 4 * 0 < 4), byte _ (by decide : 4 * 0 + 1 < 4),
    byte _ (by decide : 4 * 0 + 2 < 4), byte _ (by decide : 4 * 0 + 3 < 4)]

theorem checkId_of_late (late : replyId pkt < client.rpcId) :
    checkId pkt client = some (-nfsRpcDrop) := by
  have notLater : ¬ replyId pkt > client.rpcId := by omega
  simp [checkId, notLater, late]

theorem dispatch_of_late (whole : 4 ≤ len) (late : replyId pkt < client.rpcId) :
    dispatch (checkedReply bad update pkt len client) onError done =
      if len ≤ rpcPktSize then .ok (client, []) else .error .outOfBounds := by
  rw [checkedReply, copyReply]
  split
  · rw [← replyId_take whole] at late
    simp [checkId_of_late late, dispatch, pure, Except.pure]
  · rfl

theorem handleRead_of_late (late : replyId pkt < client.rpcId) :
    handleRead (nfsReadReply pkt client) = enter .umountReq client := by
  simp [nfsReadReply, checkId_of_late late, handleRead, nfsRpcDrop, nfserrIsdir, nfserrInval]

theorem enter_umountReq (client : Client) :
    ∃ handled, enter .umountReq client = .ok handled ∧ handled.1.state = .umountReq := by
  rw [enter, nfsSend, request]
  cases client.fsMounted with
  | true => exact ⟨_, rfl, rfl⟩
  | false => exact ⟨_, rfl, rfl⟩

/-- A late reply is ignored exactly if no file is being read and the packet fits into the
structure that it is copied to. -/
theorem ignored_iff (whole : 4 ≤ len) (late : replyId pkt < client.rpcId) :
    (∃ handled, nfsHandler pkt nfsOurPort len client = .ok handled ∧ Ignored client handled) ↔
      client.state ≠ .readReq ∧ len ≤ rpcPktSize := by
  have stays : Ignored client (client, []) := ⟨rfl, rfl, rfl, rfl, rfl, rfl, rfl⟩
  rw [nfsHandler, if_neg (not_not_intro rfl), handleReply]
  cases current : client.state with
  | readReq =>
    obtain ⟨handled, entered, left⟩ := enter_umountReq client
    simp [handleRead_of_late late, entered, Ignored, left, current]
  | _ =>
    simp only [rpcLookupReply, nfsMountReply, nfsUmountallReply, nfsLookupReply, nfsReadlinkReply,
      dispatch_of_late whole late]
    by_cases fits : len ≤ rpcPktSize
    · simp [fits, stays]
    · simp [fits]

def waiting (state : State) : Client where
  fsMounted := true
  rpcId := 2
  offset := 0
  len := nfsReadSize
  dirfh := []
  filefh := []
  downloadState := .fail
  timeoutCount := 0
  state := state
  filename := []
  path := []
  bootFileXferSize := 0
  memory := fun _ => 0
  netState := .goOn

theorem ignored_iff_lookup :
    ∃ handled, nfsHandler [0, 0, 0, 1] nfsOurPort 4 (waiting .lookupReq) = .ok handled ∧
      Ignored (waiting .lookupReq) handled :=
  (@ignored_iff [0, 0, 0, 1] 4 (waiting .lookupReq) (by decide) (by decide)).mpr (by decide)

/-- The first reply comes again while the file is read. In another state a packet with its id
that is too long leaves the structure. -/
theorem not_ignored_read : (replyId [0, 0, 0, 1] < (waiting .readReq).rpcId ∧
      ∃ handled, nfsHandler [0, 0, 0, 1] nfsOurPort 4 (waiting .readReq) = .ok handled ∧
        ¬ Ignored (waiting .readReq) handled) ∧
    nfsHandler ([0, 0, 0, 1] ++ List.replicate 2045 0) nfsOurPort 2049 (waiting .lookupReq) =
      .error .outOfBounds := by
  refine ⟨⟨by decide, _, rfl, fun ignored => ?_⟩, rfl⟩
  exact absurd ignored.2.1 (by decide)

end

end UBootV210.Net.Nfs
