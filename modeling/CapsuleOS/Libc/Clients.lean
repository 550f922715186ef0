import CapsuleOS.Libc.Remote

/-!
# Clients of the file server

The main loop of the server and any number of clients, each the thread of a process of its own, with the calls of
the kernel in which they meet. `channel_lookup` makes a new connection and hands its other end to the server;
`channel_write` and `channel_read` of the two ends meet, and the one that comes first waits for the other; `close`
wakes who waits.

An end of a connection is used by one thread, so that instead of the lines of waiters the state says of each thread
where it stands: in front of a call of the kernel, or blocked in it. Only the lookups stand in a line, in front of the
server. A step is what one thread does up to its next call of the kernel.

Three fields are not in the source: the owner of a connection, and the requests that were handled and the answers that
arrived, with their connections.
-/
namespace CapsuleOS.Libc

open Lib Fileagent

/-- A call of libc, with the descriptors of the program. -/
inductive FileCall where
  | openPath (path : List UInt8) (flags : BitVec 32)
  | read (fd : BitVec 32) (count : Nat)
  | write (fd : BitVec 32) (data : List UInt8)
  | close (fd : BitVec 32)
  | mkdir (path : List UInt8)
  | rmdir (path : List UInt8)
  | unlink (path : List UInt8)
  | readdir (fd : BitVec 32) (count : Nat)
  | stat (path : List UInt8)

/-- The two ends that a `channel_lookup` makes. -/
structure Conn (ι : Type) where
  owner : ι
  id : Nat
  deriving DecidableEq

/-- Where the loops of `main` stand, with the index of the session. -/
inductive ServerPc (ι : Type) where
  /-- In front of the `channel_read` for connections. -/
  | accept
  /-- Blocked in it. -/
  | accepting
  | accepted (c : Conn ι)
  /-- In front of the `channel_read` for requests. -/
  | receive (k : Fin maxSessions) (c : Conn ι)
  | receiving (k : Fin maxSessions) (c : Conn ι)
  | handle (k : Fin maxSessions) (c : Conn ι) (cmd : List UInt8)
  /-- In front of the `channel_write` of a response. -/
  | reply (k : Fin maxSessions) (c : Conn ι) (resp : List UInt8)
  | replying (k : Fin maxSessions) (c : Conn ι) (resp : List UInt8)
  deriving DecidableEq

/-- How a call goes on behind its request. -/
inductive Ending where
  /-- `open`: the connection is kept with the descriptor. -/
  | keeps
  /-- `mkdir`, `rmdir`, `unlink` and `stat`: the connection is closed behind the response. -/
  | hangsUp
  /-- `read`, `write` and `readdir`, on the connection of a descriptor. -/
  | stays
  /-- `close`: the connection is closed behind the request. -/
  | closes
  deriving DecidableEq

/-- Where a client stands. -/
inductive ClientPc (ι : Type) where
  | idle
  /-- Blocked in `channel_lookup`. -/
  | connecting (c : Conn ι) (cmd : List UInt8) (e : Ending)
  | send (c : Conn ι) (cmd : List UInt8) (e : Ending)
  | sending (c : Conn ι) (cmd : List UInt8) (e : Ending)
  | receive (c : Conn ι) (cmd : List UInt8) (e : Ending)
  | receiving (c : Conn ι) (cmd : List UInt8) (e : Ending)
  /-- In front of the `close` of a connection. -/
  | hangUp (c : Conn ι)

/-- The size of `USER_FD_TABLE`. -/
def userFds : Nat := 64

inductive FdType (ι : Type) where
  | console
  | file (c : Conn ι) (remoteFd : BitVec 32)
  deriving DecidableEq

structure Client (ι : Type) where
  pc : ClientPc ι
  fds : Fin userFds → Option (FdType ι)

/-- A request with its connection and the response. -/
structure Exchange (ι : Type) where
  conn : Conn ι
  cmd : List UInt8
  resp : List UInt8

structure Net (ι : Type) where
  service : Service
  server : ServerPc ι
  /-- The connections whose lookups are blocked, in order. -/
  queue : List (Conn ι)
  client : ι → Client ι
  closed : List (Conn ι)
  next : Nat
  handled : List (Exchange ι)
  got : List (Exchange ι)

abbrev NetM (ι : Type) := Prog (Net ι) Status

/-- The waiters of one end of a channel. -/
def maxLookups : Nat := 8

namespace Net

variable {ι : Type} [DecidableEq ι]

def setPc (s : Net ι) (i : ι) (pc : ClientPc ι) : Net ι :=
  { s with client := Function.update s.client i { s.client i with pc } }

def setFds (s : Net ι) (i : ι) (fds : Fin userFds → Option (FdType ι)) : Net ι :=
  { s with client := Function.update s.client i { s.client i with fds } }

def setServer (s : Net ι) (pc : ServerPc ι) : Net ι := { s with server := pc }

/-! ## The calls of a client -/

/-- `channel_lookup`. The server takes the connection if it waits for one; a ninth lookup in the line fails. -/
def lookup (i : ι) (cmd : List UInt8) (e : Ending) (s : Net ι) : Net ι :=
  let c : Conn ι := ⟨i, s.next⟩
  match s.server with
  | .accepting => { s with next := s.next + 1, server := .accepted c }.setPc i (.send c cmd e)
  | _ =>
    if s.queue.length < maxLookups then
      { s with next := s.next + 1, queue := s.queue ++ [c] }.setPc i (.connecting c cmd e)
    else { s with next := s.next + 1 }

/-- The entry of a descriptor, an `i32`. -/
def fdEntry (s : Net ι) (i : ι) (fd : BitVec 32) : Option (FdType ι) :=
  if h : fd.toNat < userFds then (s.client i).fds ⟨fd.toNat, h⟩ else none

/-- A call on a descriptor. On the console, and on no file, the server is not asked. -/
def request (i : ι) (fd : BitVec 32) (cmd : BitVec 32 → List UInt8) (s : Net ι) : Net ι :=
  match s.fdEntry i fd with
  | some (.file c remoteFd) => s.setPc i (.send c (cmd remoteFd) .stays)
  | _ => s

/-- `close` takes the entry out before anything else. -/
def closeFd (i : ι) (fd : BitVec 32) (s : Net ι) : Net ι :=
  if h : fd.toNat < userFds then
    let entry := (s.client i).fds ⟨fd.toNat, h⟩
    let s := s.setFds i (Function.update (s.client i).fds ⟨fd.toNat, h⟩ none)
    match entry with
    | some (.file c remoteFd) => s.setPc i (.send c (closeRequest remoteFd) .closes)
    | _ => s
  else s

/-- A call of libc, up to its first call of the kernel or through the lookup. -/
def call (i : ι) (s : Net ι) : FileCall → Net ι
  | .openPath path flags => s.lookup i (openRequest path flags) .keeps
  | .read fd count => if count = 0 then s else s.request i fd (readRequest · count)
  | .write fd data => if data = [] then s else s.request i fd (writeRequest · data)
  | .close fd => s.closeFd i fd
  | .mkdir path => s.lookup i (pathRequest vfsMkdir path) .hangsUp
  | .rmdir path => s.lookup i (pathRequest vfsRmdir path) .hangsUp
  | .unlink path => s.lookup i (pathRequest vfsUnlink path) .hangsUp
  | .readdir fd count => if count = 0 then s else s.request i fd (readdirRequest · count)
  | .stat path => s.lookup i (pathRequest vfsStat path) .hangsUp

/-- The request is sent. -/
def sent (c : Conn ι) (cmd : List UInt8) : Ending → ClientPc ι
  | .closes => .hangUp c
  | e => .receive c cmd e

/-- A call of the kernel on the connection has failed. -/
def failed (c : Conn ι) : Ending → ClientPc ι
  | .stays => .idle
  | _ => .hangUp c

/-- The first free descriptor behind the console. -/
def freeUserFd (fds : Fin userFds → Option (FdType ι)) : Option (Fin userFds) :=
  (List.finRange userFds).find? fun fd => 3 ≤ fd.val ∧ (fds fd).isNone

/-- `open` with the number of the response. -/
def opened (i : ι) (c : Conn ι) (n : Int) (s : Net ι) : Net ι :=
  if n < 0 then s.setPc i (.hangUp c)
  else
    match freeUserFd (s.client i).fds with
    | none => s.setPc i (.hangUp c)
    | some fd =>
      (s.setFds i (Function.update (s.client i).fds fd (some (.file c (BitVec.ofInt 32 n))))).setPc i .idle

/-- A response has arrived. -/
def arrived (i : ι) (c : Conn ι) (cmd : List UInt8) (resp : List UInt8) (s : Net ι) : Ending → Net ι
  | .keeps => { s with got := s.got ++ [Exchange.mk c cmd resp] }.opened i c (numberOf resp)
  | .stays => { s with got := s.got ++ [Exchange.mk c cmd resp] }.setPc i .idle
  | _ => { s with got := s.got ++ [Exchange.mk c cmd resp] }.setPc i (.hangUp c)

/-- `channel_write` of a client. -/
def clientWrite (i : ι) (c : Conn ι) (cmd : List UInt8) (e : Ending) (s : Net ι) : Net ι :=
  if c ∈ s.closed then s.setPc i (failed c e)
  else
    match s.server with
    | .receiving k c' =>
      if c' = c then (s.setServer (.handle k c cmd)).setPc i (sent c cmd e) else s.setPc i (.sending c cmd e)
    | _ => s.setPc i (.sending c cmd e)

/-- `channel_read` of a client. -/
def clientRead (i : ι) (c : Conn ι) (cmd : List UInt8) (e : Ending) (s : Net ι) : Net ι :=
  if c ∈ s.closed then s.setPc i (failed c e)
  else
    match s.server with
    | .replying k c' resp =>
      if c' = c then (s.setServer (.receive k c)).arrived i c cmd resp e else s.setPc i (.receiving c cmd e)
    | _ => s.setPc i (.receiving c cmd e)

/-- `close` of a connection by its client. The blocked read of the server returns nothing, the blocked write
returns, and both go on to the next read. -/
def clientClose (i : ι) (c : Conn ι) (s : Net ι) : Net ι :=
  let s := { s with closed := c :: s.closed }.setPc i .idle
  match s.server with
  | .receiving k c' => if c' = c then s.setServer (.receive k c) else s
  | .replying k c' _ => if c' = c then s.setServer (.receive k c) else s
  | _ => s

def clientStep (i : ι) (s : Net ι) : Net ι :=
  match (s.client i).pc with
  | .send c cmd e => s.clientWrite i c cmd e
  | .receive c cmd e => s.clientRead i c cmd e
  | .hangUp c => s.clientClose i c
  | _ => s

/-! ## The server -/

def onService {α : Type} (m : ServiceM α) : NetM ι α := Prog.zoom Net.service (fun service s => { s with service }) m

/-- `channel_read` for connections. The lookup that has waited longest returns. -/
def serverAccept (s : Net ι) : Net ι :=
  match s.queue with
  | [] => s.setServer .accepting
  | c :: rest =>
    let s := { s with queue := rest }.setServer (.accepted c)
    match (s.client c.owner).pc with
    | .connecting _ cmd e => s.setPc c.owner (.send c cmd e)
    | _ => s

/-- The server closes its end: a blocked write of the client returns, and a blocked read with nothing. -/
def serverClose (c : Conn ι) (s : Net ι) : Net ι :=
  let s := { s with closed := c :: s.closed }
  match (s.client c.owner).pc with
  | .sending c' cmd e => if c' = c then s.setPc c.owner (sent c cmd e) else s
  | .receiving c' _ e => if c' = c then s.setPc c.owner (failed c e) else s
  | _ => s

/-- `channel_read` for requests, on a connection that is not closed. -/
def serverRead (k : Fin maxSessions) (c : Conn ι) (s : Net ι) : Net ι :=
  match (s.client c.owner).pc with
  | .sending c' cmd e =>
    if c' = c then (s.setServer (.handle k c cmd)).setPc c.owner (sent c cmd e) else s.setServer (.receiving k c)
  | _ => s.setServer (.receiving k c)

/-- `channel_write` of a response, whose error is ignored. -/
def serverWrite (k : Fin maxSessions) (c : Conn ι) (resp : List UInt8) (s : Net ι) : Net ι :=
  if c ∈ s.closed then s.setServer (.receive k c)
  else
    match (s.client c.owner).pc with
    | .receiving c' cmd e =>
      if c' = c then (s.setServer (.receive k c)).arrived c.owner c cmd resp e else s.setServer (.replying k c resp)
    | _ => s.setServer (.replying k c resp)

/-- The response that `handle_cmd` has written, if any. -/
def answered (k : Fin maxSessions) (c : Conn ι) (cmd : List UInt8) (before : Nat) (s : Net ι) : Net ι :=
  match s.service.sent[before]? with
  | some (_, resp) => { s with handled := s.handled ++ [Exchange.mk c cmd resp] }.setServer (.reply k c resp)
  | none => s.setServer (.receive k c)

def serverStep : NetM ι Unit := do
  let s ← Prog.get
  match s.server with
  | .accept => Prog.modify serverAccept
  | .accepted c =>
    match ← onService (Service.call Vfs.connect) with
    | .ok (some k) => Prog.modify (·.setServer (.receive k c))
    | _ => Prog.modify fun s => (s.serverClose c).setServer .accept
  | .receive k c =>
    if c ∈ s.closed then
      let _ ← onService (Service.call (Vfs.hangup k))
      Prog.modify (·.setServer .accept)
    else Prog.modify (serverRead k c)
  | .handle k c cmd =>
    onService (Service.handleCmd k cmd)
    Prog.modify (answered k c cmd s.service.sent.length)
  | .reply k c resp => Prog.modify (serverWrite k c resp)
  | _ => pure ()

/-- Nobody has connected. -/
def boot : Net ι where
  service := .start
  server := .accept
  queue := []
  client _ := ⟨.idle, fun fd => if fd.val < 3 then some .console else none⟩
  closed := []
  next := 0
  handled := []
  got := []

end Net

def ServerPc.blocked {ι : Type} : ServerPc ι → Bool
  | .accepting | .receiving _ _ | .replying _ _ _ => true
  | _ => false

def ClientPc.isIdle {ι : Type} : ClientPc ι → Bool
  | .idle => true
  | _ => false

/-- In a call, and not blocked. -/
def ClientPc.goes {ι : Type} : ClientPc ι → Bool
  | .send _ _ _ | .receive _ _ _ | .hangUp _ => true
  | _ => false

inductive NetOp (ι : Type) where
  | server
  | client (i : ι)
  | call (i : ι) (c : FileCall)

namespace NetOp

variable {ι : Type} [DecidableEq ι]

def perform : NetOp ι → NetM ι Unit
  | .server => Net.serverStep
  | .client i => Prog.modify (·.clientStep i)
  | .call i c => Prog.modify fun s => s.call i c

/-- A thread that is not blocked goes on; a client that is in no call makes one. -/
def Enabled (s : Net ι) : NetOp ι → Prop
  | .server => s.server.blocked = false
  | .client i => (s.client i).pc.goes = true
  | .call i _ => (s.client i).pc.isIdle = true

def system : Stepper (Net ι) Status (NetOp ι) := ⟨perform, Enabled⟩

instance (s : Net ι) : (op : NetOp ι) → Decidable (system.Enabled s op)
  | .server => inferInstanceAs (Decidable (s.server.blocked = false))
  | .client i => inferInstanceAs (Decidable ((s.client i).pc.goes = true))
  | .call i _ => inferInstanceAs (Decidable ((s.client i).pc.isIdle = true))

end NetOp

end CapsuleOS.Libc
