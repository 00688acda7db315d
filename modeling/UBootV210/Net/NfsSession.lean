import UBootV210.Foundation.Run
import UBootV210.Net.Nfs

/-! # NFS transfers

The client, a server whose files do not change, and a network that loses, delays and
repeats replies. -/

namespace UBootV210.Net.Nfs

open StaticBuffer PrefixCopy

/-- What a server answers. `content` has the regular files; their length is a number of
32 bits in the protocol. No link is empty. -/
structure Server where
  mount : List UInt8 → Option (List UInt8)
  lookup : List UInt8 → List UInt8 → Option (List UInt8)
  readlink : List UInt8 → Option (List UInt8)
  content : List UInt8 → Option (List UInt8)
  small : ∀ handle file, content handle = some file → file.length < 2 ^ 32
  linked : ∀ handle link, readlink handle = some link → link ≠ []

/-- The handle that a name in a directory denotes, where symbolic links are followed. -/
inductive Server.Denotes (server : Server) : List UInt8 → List UInt8 → List UInt8 → Prop
  | entry {path name directory handle : List UInt8} :
      server.mount path = some directory → server.lookup directory name = some handle →
      Denotes server path name handle
  | link {path name directory handle link behind file target : List UInt8} :
      server.mount path = some directory → server.lookup directory name = some handle →
      server.content handle = none → server.readlink handle = some link →
      splitNames (linkPath (link.getD 0 0) path link) = .ok (behind, file) →
      Denotes server behind file target → Denotes server path name target

def Server.Boots (server : Server) (bootFile : CString) (handle : List UInt8) : Prop :=
  ∃ directory name, splitNames bootFile.bytes = .ok (directory, name) ∧
    server.Denotes directory name handle

-- The bytes that the body of the verifier takes.
def verifierSize (pkt : List UInt8) : Nat := 4 * ((word pkt 4 + 3) / 4)

def result (pkt : List UInt8) (index : Nat) : Nat := word pkt (5 + verifierSize pkt / 4 + index)

/-- The results of a read: an error that is not one of a directory or a link, or bytes of
the file. There are none only at its end. -/
def ReadResults (file : List UInt8) (offset count : Nat) (pkt : List UInt8) : Prop :=
  (result pkt 1 ≠ 0 ∧ result pkt 1 < 2 ^ 31 ∧ result pkt 1 ≠ 21 ∧ result pkt 1 ≠ 22) ∨
    (result pkt 1 = 0 ∧ result pkt 19 ≤ count ∧
      (result pkt 19 = 0 ∨ offset + result pkt 19 ≤ file.length) ∧
      ((pkt.drop (replySize + verifierSize pkt)).take (result pkt 19) =
        (file.drop offset).take (result pkt 19)) ∧
      (0 < result pkt 19 ∨ file.length ≤ offset))

def Server.Results (server : Server) (call : Request) (pkt : List UInt8) : Prop :=
  match call with
  | .getport _ | .umountall => True
  | .mountAddentry path => result pkt 1 = 0 →
      server.mount path = some ((pkt.drop (28 + verifierSize pkt)).take nfsFhsize)
  | .lookup directory name => result pkt 1 = 0 →
      server.lookup directory name = some ((pkt.drop (28 + verifierSize pkt)).take nfsFhsize)
  | .readlink handle => result pkt 1 = 0 →
      server.readlink handle = some ((pkt.drop (32 + verifierSize pkt)).take (result pkt 2)) ∧
        32 + verifierSize pkt + result pkt 2 ≤ pkt.length
  | .read handle offset count =>
      match server.content handle with
      | some file => ReadResults file offset count pkt
      | none => result pkt 1 ≠ 0 ∧ result pkt 1 < 2 ^ 31

/-- A reply of the server. The empty verifier has no body, and a call that is accepted
and executed has results. -/
structure Server.Answers (server : Server) (call : Request) (pkt : List UInt8) : Prop where
  plain : verifier pkt = 0 → word pkt 4 = 0
  results : rstatus pkt = 0 → result pkt 0 = 0 → server.Results call pkt

/-- The longest path whose requests fit into a transmit buffer. -/
def nameRoom : Nat := 1392

structure Session where
  client : Client
  log : List Request

/-- A reply to any request may arrive at any time, and any number of times. -/
inductive Event
  | reply (index : Nat) (pkt : List UInt8)
  | timeout
  | restart

namespace Session

variable (server : Server) (bootFile : CString)

def after (session : Session) (handled : Client × List Request) : Session :=
  ⟨handled.1, session.log ++ handled.2⟩

def next (session : Session) : Event → Exec Session
  | .reply _ pkt =>
      (nfsHandler pkt nfsOurPort pkt.length session.client).map session.after
  | .timeout => (nfsTimeout session.client).map session.after
  | .restart => (nfsStart bootFile session.client).map session.after

def MayCome (session : Session) : Event → Prop
  | .reply index pkt => session.client.netState = .goOn ∧ replyId pkt = (index + 1) % 2 ^ 32 ∧
      ∃ call, session.log[index]? = some call ∧ server.Answers call pkt
  | .timeout => session.client.netState = .goOn
  | .restart => session.client.netState = .startAgain

def Step (session : Session) (event : Event) (next : Session) : Prop :=
  session.MayCome server event ∧ session.next bootFile event = .ok next

/-- A reply does not come so late that the RPC id of its request is in use again. The reply
to a read has the empty verifier; other replies fit into the structure that they are copied
to, and there is room for the path that a link leads to. -/
structure TimelyReply (session : Session) (index : Nat) (pkt : List UInt8) : Prop where
  once : (index + 1) % 2 ^ 32 = session.client.rpcId → index + 1 = session.log.length
  plain : session.client.state = .readReq → index + 1 = session.log.length → verifier pkt = 0
  fits : session.client.state ≠ .readReq → pkt.length ≤ rpcPktSize
  room : session.client.state = .readlinkReq → index + 1 = session.log.length →
    linkPlace pkt session.client.path + data pkt 1 ≤ nameRoom

def Timely (session : Session) : Event → Prop
  | .reply index pkt => session.TimelyReply index pkt
  | _ => True

end Session

def Loaded (server : Server) (client : Client) : Prop :=
  match server.content client.filefh with
  | some file => HoldsUpTo client.memory file client.offset ∧
      client.bootFileXferSize = client.offset ∧ client.offset ≤ file.length
  | none => client.bootFileXferSize = 0

def Complete (server : Server) (client : Client) : Prop :=
  server.Denotes client.path client.filename client.filefh ∧
    ∃ file, server.content client.filefh = some file ∧
      HoldsUpTo client.memory file file.length ∧ client.bootFileXferSize = file.length

def Stage (server : Server) (client : Client) : Prop :=
  match client.state with
  | .prclookupProgMountReq | .prclookupProgNfsReq | .mountReq => client.bootFileXferSize = 0
  | .lookupReq =>
      client.bootFileXferSize = 0 ∧ server.mount client.path = some client.dirfh
  | .readReq =>
      server.mount client.path = some client.dirfh ∧
        server.lookup client.dirfh client.filename = some client.filefh ∧
        client.len = nfsReadSize ∧ Loaded server client
  | .readlinkReq =>
      client.bootFileXferSize = 0 ∧ server.mount client.path = some client.dirfh ∧
        server.lookup client.dirfh client.filename = some client.filefh ∧
        server.content client.filefh = none
  | .umountReq => client.downloadState = .success → Complete server client

end UBootV210.Net.Nfs
