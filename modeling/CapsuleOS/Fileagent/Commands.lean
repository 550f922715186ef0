import CapsuleOS.Fileagent.OpenFiles
import CapsuleOS.Lib.Fields
import CapsuleOS.Lib.Total

/-!
# Commands

`handle_cmd` on the bytes of a request, and the requests that libc builds. `Service.sent` is what the
server has written to the channels of its sessions; a slice or an index out of bounds is a fault, which
ends the process.
-/
namespace CapsuleOS.Fileagent

open Lib

@[match_pattern] abbrev vfsOpen : UInt8 := 1
@[match_pattern] abbrev vfsClose : UInt8 := 2
@[match_pattern] abbrev vfsRead : UInt8 := 3
@[match_pattern] abbrev vfsWrite : UInt8 := 5
@[match_pattern] abbrev vfsMkdir : UInt8 := 6
@[match_pattern] abbrev vfsRmdir : UInt8 := 7
@[match_pattern] abbrev vfsUnlink : UInt8 := 8
@[match_pattern] abbrev vfsReaddir : UInt8 := 9
@[match_pattern] abbrev vfsStat : UInt8 := 10

/-- The buffer a request is read into. -/
def cmdSize : Nat := 148

/-- Where the path and the data of a request start. -/
def cmdHeader : Nat := 20

/-- The bytes of data that a message carries. -/
def inlineDataMax : Nat := 128

/-- The buffer of the server for reading and listing. -/
def dataSize : Nat := 1024

/-! ## Requests -/

/-- The bytes up to a zero; none if they are not UTF-8. -/
def cmdPath (buf : List UInt8) : List UInt8 :=
  if buf.length ≤ cmdHeader then []
  else
    let path := (buf.drop cmdHeader).takeWhile (· ≠ 0)
    if (String.fromUTF8? ⟨path.toArray⟩).isSome then path else []

def cmdArg32₁ (buf : List UInt8) : Nat := if buf.length < 8 then 0 else (leField 32 buf 4).toNat

def cmdArg32₂ (buf : List UInt8) : Nat := if buf.length < 12 then 0 else (leField 32 buf 8).toNat

structure Service where
  vfs : Vfs
  sent : List (Fin maxSessions × List UInt8)

abbrev ServiceM := Prog Service Status

namespace Service

/-- A call with its error as a value. -/
def call {α : Type} (m : VfsM α) : ServiceM (Except Status α) :=
  Prog.zoom Service.vfs (fun vfs s => { s with vfs }) (Prog.attempt m)

def channelWrite (k : Fin maxSessions) (bytes : List UInt8) : ServiceM Unit :=
  Prog.modify fun s => { s with sent := s.sent ++ [(k, bytes)] }

def writeResponse (k : Fin maxSessions) (val : Int) : ServiceM Unit :=
  channelWrite k (leBytes (BitVec.ofInt 64 val))

def writeResponseData (k : Fin maxSessions) (val : Int) (data : List UInt8) : ServiceM Unit :=
  channelWrite k (leBytes (BitVec.ofInt 64 val) ++ data.take inlineDataMax)

/-- The `i32` that a call returns. -/
def returned : Except Status (Option Nat) → Int
  | .ok (some n) => n
  | .ok none => -1
  | .error e => e.code

def respond (k : Fin maxSessions) (m : VfsM (Option Nat)) : ServiceM Unit := do
  writeResponse k (returned (← call m))

/-- The arms of `VFS_READ` and `VFS_READDIR`. -/
def respondData (k : Fin maxSessions) (m : VfsM (Option (List UInt8))) : ServiceM Unit := do
  match ← call m with
  | .ok (some data) => writeResponseData k data.length data
  | .ok none => writeResponse k (-1)
  | .error e => writeResponse k e.code

/-- The data of `VFS_WRITE`. The length comes from the client and is not compared with the request. -/
def payload (buf : List UInt8) : ServiceM (List UInt8) :=
  let len := cmdArg32₂ buf
  if buf.length > cmdHeader ∧ len > 0 then
    if cmdHeader + len ≤ buf.length then pure (slice buf cmdHeader (cmdHeader + len)) else Prog.fault
  else if buf.length > cmdHeader then pure (buf.drop cmdHeader)
  else pure []

/-- The two numbers of the answer to `VFS_STAT`. -/
def statFields : Except Status (Option (Option (Nat × NodeType))) → Int × Int
  | .ok (some (some (size, .file))) => (size, 1)
  | .ok (some (some (size, .directory))) => (size, 2)
  | _ => (-1, 0)

def respondStat (k : Fin maxSessions) (path : List UInt8) : ServiceM Unit := do
  let (size, ntype) := statFields (← call (Vfs.doStat path))
  channelWrite k (leBytes (BitVec.ofInt 64 size) ++ leBytes (BitVec.ofInt 64 ntype))

def handleCmd (k : Fin maxSessions) : List UInt8 → ServiceM Unit
  | [] => pure ()
  | cmd :: rest =>
    let buf := cmd :: rest
    match cmd with
    | vfsOpen => respond k (Vfs.doOpen k (cmdPath buf) (cmdArg32₁ buf))
    | vfsClose => respond k (Vfs.doClose k (cmdArg32₁ buf))
    | vfsRead => respondData k (Vfs.doRead k (cmdArg32₁ buf) dataSize)
    | vfsWrite => do
      let data ← payload buf
      respond k (Vfs.doWrite k (cmdArg32₁ buf) data)
    | vfsMkdir => respond k (do Vfs.doMkdir (cmdPath buf); return some 0)
    | vfsRmdir => respond k (Vfs.doRmdir (cmdPath buf))
    | vfsUnlink => respond k (Vfs.doUnlink (cmdPath buf))
    | vfsReaddir => respondData k (Vfs.doReaddir k (cmdArg32₁ buf) dataSize)
    | vfsStat => respondStat k (cmdPath buf)
    | _ => writeResponse k Status.invalidArgs.code

/-- Before the first connection. -/
def start : Service := ⟨Vfs.start, []⟩

end Service

/-- What can happen to the server: a connection, a request and the end of a session. -/
inductive ServeOp where
  | connect
  | hangup (k : Fin maxSessions)
  | command (k : Fin maxSessions) (buf : List UInt8)

namespace ServeOp

def perform : ServeOp → ServiceM Unit
  | .connect => do let _ ← Service.call Vfs.connect
  | .hangup k => do let _ ← Service.call (Vfs.hangup k)
  | .command k buf => Service.handleCmd k buf

/-- A request is read into a buffer of 148 bytes. -/
def Arrives (_ : Service) : ServeOp → Prop
  | .command _ buf => buf.length ≤ cmdSize
  | _ => True

def system : Stepper Service Status ServeOp := ⟨perform, Arrives⟩

/-- A node that the request makes gets an index that is not in use. -/
def FindsFree (s : Vfs) : ServeOp → Prop
  | .command k buf =>
    match buf.head? with
    | some vfsOpen =>
      let path := Fs.clean (cmdPath buf)
      (s.sessions k).isSome → ¬(cmdPath buf = Vfs.devTty ∨ cmdPath buf = slash :: Vfs.devTty) →
        s.fs.resolve path = some none → Vfs.wantsCreate (cmdArg32₁ buf) →
          (FsOp.createFilePath path).Meets s.fs
    | some vfsMkdir => (FsOp.mkdirPath (cmdPath buf)).Meets s.fs
    | _ => True
  | _ => True

end ServeOp

namespace Vfs

/-- The descriptor is one of the sixteen, if there is a session to look in. -/
def InTable (s : Vfs) (k : Fin maxSessions) (fd : Nat) : Prop := (s.sessions k).isSome → fd < maxFds

/-- A file behind the descriptor is written within its array. -/
def WithinArray (s : Vfs) (k : Fin maxSessions) (fd : Nat) : Prop :=
  ∀ inside : fd < maxFds, ∀ f ∈ s.fdAt k ⟨fd, inside⟩,
    s.fs.ntypes f.nodeIdx = some .file → f.offset ≤ fileSize

/-- What the server does not check: that a descriptor is in the table, that the length of a write is
that of the data sent, and that a file is not written behind its array. -/
def Safe (s : Vfs) (k : Fin maxSessions) (buf : List UInt8) : Prop :=
  match buf.head? with
  | some vfsRead => cmdArg32₁ buf = ttyFd ∨ s.InTable k (cmdArg32₁ buf)
  | some vfsWrite => (buf.length > cmdHeader → cmdHeader + cmdArg32₂ buf ≤ buf.length) ∧
      (cmdArg32₁ buf = ttyFd ∨ s.InTable k (cmdArg32₁ buf) ∧ s.WithinArray k (cmdArg32₁ buf))
  | some vfsReaddir => s.InTable k (cmdArg32₁ buf)
  | _ => True

end Vfs

end CapsuleOS.Fileagent
