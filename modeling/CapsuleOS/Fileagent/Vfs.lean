import CapsuleOS.Fileagent.RamFs

/-!
# Sessions and open files

A session has a table of open files, each with the index of a node and an offset. The calls return `none`
for -1, and a status as an error.

Two fields of an open file are not in the source. `birth` is how many nodes had been made at the index
when the file was opened, and `moved` is how many bytes went through the descriptor since then.
-/
namespace CapsuleOS.Fileagent

open Lib

def maxSessions : Nat := 8
def maxFds : Nat := 16

instance : NeZero maxSessions := ⟨by decide⟩
instance : NeZero maxFds := ⟨by decide⟩

structure OpenFile where
  nodeIdx : Idx
  offset : Nat
  birth : Nat
  moved : Nat

/-- The offset is a 32-bit number. -/
def OpenFile.advance (f : OpenFile) (n : Nat) : OpenFile :=
  { f with offset := (f.offset + n) % 2 ^ 32, moved := f.moved + n }

structure Session where
  fds : Fin maxFds → Option OpenFile

structure Vfs where
  fs : Fs
  sessions : Fin maxSessions → Option Session

abbrev VfsM := Prog Vfs Status

def ttyFd : Nat := 100

namespace Vfs

/-- A call of the RAM file system. -/
def onFs {α : Type} (m : FsM α) : VfsM α := Prog.zoom Vfs.fs (fun fs s => { s with fs }) m

def setSession (s : Vfs) (k : Fin maxSessions) (sess : Option Session) : Vfs :=
  { s with sessions := Function.update s.sessions k sess }

def setFd (s : Vfs) (k : Fin maxSessions) (sess : Session) (fd : Fin maxFds) (f : Option OpenFile) : Vfs :=
  s.setSession k (some ⟨Function.update sess.fds fd f⟩)

def devTty : List UInt8 := [100, 101, 118, slash, 116, 116, 121]

/-- The bit of the flags that asks for the file to be made. -/
def wantsCreate (flags : Nat) : Bool := flags.testBit 6

def freeFd (sess : Session) : Option (Fin maxFds) :=
  (List.finRange maxFds).find? fun fd => (sess.fds fd).isNone

/-- The node of the path, made if it is wanted. -/
def nodeFor (path : List UInt8) (flags : Nat) : FsM (Option Idx) := do
  match ← look (·.resolve path) with
  | some idx => return some idx
  | none => if wantsCreate flags then Fs.createFilePath path else return none

def doOpen (k : Fin maxSessions) (path : List UInt8) (flags : Nat) : VfsM (Option Nat) := do
  let s ← Prog.get
  match s.sessions k with
  | none => return none
  | some sess =>
    if path = devTty ∨ path = slash :: devTty then return some ttyFd
    else
      match ← onFs (nodeFor (Fs.clean path) flags) with
      | none => Prog.throw .notFound
      | some idx =>
        match freeFd sess with
        | none => Prog.throw .noMemory
        | some fd =>
          Prog.modify fun s => s.setFd k sess fd (some ⟨idx, 0, s.fs.births idx, 0⟩)
          return some fd.val

def doClose (k : Fin maxSessions) (fd : Nat) : VfsM (Option Nat) := do
  if fd = ttyFd then return some 0
  else
    let s ← Prog.get
    match s.sessions k with
    | none => return none
    | some sess =>
      if h : fd < maxFds then
        Prog.modify (·.setFd k sess ⟨fd, h⟩ none)
        return some 0
      else return none

/-- What reading, writing and listing do alike: a descriptor behind the table is an index out of bounds,
and the offset advances by the size of the result. -/
def through {α : Type} (size : α → Nat) (act : OpenFile → FsM (Option α)) (k : Fin maxSessions)
    (fd : Nat) : VfsM (Option α) := do
  let s ← Prog.get
  match s.sessions k with
  | none => return none
  | some sess =>
    if h : fd < maxFds then
      match sess.fds ⟨fd, h⟩ with
      | none => return none
      | some f =>
        match ← onFs (act f) with
        | none => return none
        | some a =>
          if size a > 0 then
            Prog.modify (·.setFd k sess ⟨fd, h⟩ (some (f.advance (size a))))
            return some a
          else return some a
    else Prog.fault

def doRead (k : Fin maxSessions) (fd cap : Nat) : VfsM (Option (List UInt8)) :=
  if fd = ttyFd then pure (some [])
  else through List.length (fun f => look fun s => some (s.read f.nodeIdx cap f.offset)) k fd

def doWrite (k : Fin maxSessions) (fd : Nat) (data : List UInt8) : VfsM (Option Nat) :=
  if fd = ttyFd then pure (some data.length)
  else through id (fun f => Fs.write f.nodeIdx data f.offset) k fd

def doReaddir (k : Fin maxSessions) (fd cap : Nat) : VfsM (Option (List UInt8)) :=
  through List.length (fun f => look (·.readdirNames f.nodeIdx cap)) k fd

def doMkdir (path : List UInt8) : VfsM Unit := onFs (Fs.mkdirPath path)

/-- `do_rmdir` and `do_unlink`, which differ in the answer where nothing is removed. -/
def removeAt (path : List UInt8) (refused : VfsM (Option Nat)) : VfsM (Option Nat) := do
  match ← onFs (look (·.resolve path)) with
  | none => Prog.throw .notFound
  | some idx =>
    let s ← Prog.get
    match s.fs.parentOf idx with
    | none => Prog.throw .invalidArgs
    | some parent => if ← onFs (Fs.remove parent idx) then return some 0 else refused

def doRmdir (path : List UInt8) : VfsM (Option Nat) := removeAt path (Prog.throw .notEmpty)

def doUnlink (path : List UInt8) : VfsM (Option Nat) := removeAt path (pure none)

/-- The size and the type. -/
def doStat (path : List UInt8) : VfsM (Option (Option (Nat × NodeType))) := do
  match ← onFs (look (·.resolve (Fs.clean path))) with
  | none => return none
  | some idx =>
    let s ← Prog.get
    return some ((s.fs.ntypes idx).map fun ntype => (s.fs.sizes idx, ntype))

/-- A new connection gets the first free session. -/
def connect : VfsM (Option (Fin maxSessions)) := do
  let s ← Prog.get
  match (List.finRange maxSessions).find? fun k => (s.sessions k).isNone with
  | none => return none
  | some k =>
    Prog.modify (·.setSession k (some ⟨fun _ => none⟩))
    return some k

def hangup (k : Fin maxSessions) : VfsM Unit := Prog.modify (·.setSession k none)

def dev : List UInt8 := [slash, 100, 101, 118]

/-- Before the first connection. -/
def start : Vfs := ⟨(Fs.mkdirPath dev Fs.start).state, fun _ => none⟩

end Vfs

inductive VfsOp where
  | connect
  | hangup (k : Fin maxSessions)
  | openPath (k : Fin maxSessions) (path : List UInt8) (flags : Nat)
  | close (k : Fin maxSessions) (fd : Nat)
  | read (k : Fin maxSessions) (fd cap : Nat)
  | write (k : Fin maxSessions) (fd : Nat) (data : List UInt8)
  | mkdir (path : List UInt8)
  | rmdir (path : List UInt8)
  | unlink (path : List UInt8)
  | readdir (k : Fin maxSessions) (fd cap : Nat)
  | stat (path : List UInt8)

namespace VfsOp

def perform : VfsOp → VfsM Unit
  | .connect => do let _ ← Vfs.connect
  | .hangup k => Vfs.hangup k
  | .openPath k path flags => do let _ ← Vfs.doOpen k path flags
  | .close k fd => do let _ ← Vfs.doClose k fd
  | .read k fd cap => do let _ ← Vfs.doRead k fd cap
  | .write k fd data => do let _ ← Vfs.doWrite k fd data
  | .mkdir path => Vfs.doMkdir path
  | .rmdir path => do let _ ← Vfs.doRmdir path
  | .unlink path => do let _ ← Vfs.doUnlink path
  | .readdir k fd cap => do let _ ← Vfs.doReaddir k fd cap
  | .stat path => do let _ ← Vfs.doStat path

def system : Stepper Vfs Status VfsOp := ⟨perform, fun _ _ => True⟩

end VfsOp

end CapsuleOS.Fileagent
