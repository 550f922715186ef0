import CapsuleOS.Task.Process

/-!
# Descriptors of pipes

The calls that make and copy pipe descriptors, and the part of reading and writing that looks them up.
User memory appears as the outcome of copying from it; what is copied back is not recorded, since a
failure to do so is ignored.
-/
namespace CapsuleOS

open Lib

/-- The processes and the pipe table. -/
structure FdSys where
  os : Os
  pipes : Pipes

abbrev FdM := Prog FdSys Status

abbrev FdTable := Fin fdTableSize → Option FdEntry

namespace Os

/-- The scan of `alloc_user_fd`, for as many rounds as there are slots. -/
def scanFds (table : FdTable) : Nat → Nat → Option (Fin fdTableSize)
  | 0, _ => none
  | rounds + 1, start =>
    let fd : Fin fdTableSize := if h : start < fdTableSize then ⟨start, h⟩ else ⟨userFdBase, by decide⟩
    if table fd = none then some fd else scanFds table rounds ((fd + 1) % fdTableSize)

def allocUserFd (pid : Nat) : OsM (Fin fdTableSize) := do
  let p ← lookupProcess pid
  match scanFds p.fdTable fdTableSize (max p.nextFd userFdBase) with
  | some fd =>
    updateProcess pid fun p => { p with nextFd := (fd + 1) % fdTableSize }
    return fd
  | none => Prog.throw .noMemory

def setFd (pid : Nat) (fd : Fin fdTableSize) (entry : FdEntry) : OsM Unit :=
  updateProcess pid fun p => { p with fdTable := Function.update p.fdTable fd (some entry) }

end Os

namespace FdSys

def onOs {α : Type} (m : OsM α) : FdM α := Prog.zoom FdSys.os (fun os s => { s with os }) m

def onPipes {α : Type} (m : PipesM α) : FdM α :=
  Prog.zoom FdSys.pipes (fun pipes s => { s with pipes }) m

/-- `l0Pa` is the root of the caller's tables. The slot of the first descriptor is filled only when both
have been found. -/
def sysPipe (l0Pa ufdsPtr : Nat) : FdM Unit := do
  let caller ← onOs Os.currentProcessId
  let _ ← onOs (Os.lookupProcess caller)
  if l0Pa = 0 ∨ ufdsPtr = 0 then Prog.throw .invalidArgs
  else
    let id ← onPipes Pipes.allocPipe
    let rd ← onOs (Os.allocUserFd caller)
    let wr ← onOs (Os.allocUserFd caller)
    onOs (Os.setFd caller rd (.pipe id .read))
    onOs (Os.setFd caller wr (.pipe id .write))

/-- Close what the slot holds before it is filled. -/
def closeEntry : Option FdEntry → FdM Unit
  | some (.pipe id role) => onPipes (Pipes.closeRole id role)
  | none => pure ()

def cloneEntry : FdEntry → FdM Unit
  | .pipe id role => onPipes (Pipes.cloneRole id role)

/-- A new descriptor outside the table is an index out of bounds. -/
def sysDup2 (oldfd newfd : Nat) : FdM Nat := do
  let caller ← onOs Os.currentProcessId
  let p ← onOs (Os.lookupProcess caller)
  if oldfd = newfd then return newfd
  else if newfd = 0 ∨ newfd = 1 ∨ newfd = 2 then Prog.throw .notAllowed
  else if h : oldfd < fdTableSize then
    match p.fdTable ⟨oldfd, h⟩ with
    | none => Prog.throw .badHandle
    | some entry =>
      if h' : newfd < fdTableSize then
        closeEntry (p.fdTable ⟨newfd, h'⟩)
        onOs (Os.setFd caller ⟨newfd, h'⟩ entry)
        cloneEntry entry
        return newfd
      else Prog.fault
  else Prog.throw .badHandle

/-- The pipe end behind a descriptor of the caller. -/
def pipeEnd (fd : Nat) : FdM (Option FdEntry) :=
  if h : fd < fdTableSize then
    if fd < userFdBase then pure none
    else do
      let caller ← onOs Os.currentProcessId
      let s ← Prog.get
      return (s.os.findProcess caller).bind fun p => p.fdTable ⟨fd, h⟩
  else pure none

def kernelBufSize : Nat := 4096

/-- `dispatch_pipe_io` for reading; `none` leaves the call to the file service. -/
def dispatchRead (fd bufPtr bufLen : Nat) : FdM (Option (List UInt8)) := do
  match ← pipeEnd fd with
  | none => return none
  | some (.pipe id role) =>
    if bufPtr = 0 ∨ bufLen = 0 then return some []
    else if role = .write then Prog.throw .notAllowed
    else do
      let bytes ← onPipes (Pipes.pipeRead id (min bufLen kernelBufSize))
      return some bytes

/-- `dispatch_pipe_io` for writing; `user` is what copying from user memory gives. -/
def dispatchWrite (fd bufPtr bufLen l0Pa : Nat) (user : Nat → Except Status (List UInt8)) :
    FdM (Option Nat) := do
  match ← pipeEnd fd with
  | none => return none
  | some (.pipe id role) =>
    if bufPtr = 0 ∨ bufLen = 0 then return some 0
    else if role = .read then Prog.throw .notAllowed
    else if l0Pa = 0 then Prog.throw .invalidArgs
    else
      match user (min bufLen kernelBufSize) with
      | .error e => Prog.throw e
      | .ok bytes => do
        let n ← onPipes (Pipes.pipeWrite id bytes)
        return some n

end FdSys

/-! ## Steps -/

inductive FdOp where
  | proc (op : ProcOp)
  | pipe (l0Pa ufdsPtr : Nat)
  | dup2 (oldfd newfd : Nat)
  | read (fd bufPtr bufLen : Nat)
  | write (fd bufPtr bufLen l0Pa : Nat) (user : Nat → Except Status (List UInt8))

namespace FdOp

def perform : FdOp → FdM Unit
  | .proc op => FdSys.onOs op.perform
  | .pipe l0Pa ufdsPtr => FdSys.sysPipe l0Pa ufdsPtr
  | .dup2 oldfd newfd => do let _ ← FdSys.sysDup2 oldfd newfd
  | .read fd bufPtr bufLen => do let _ ← FdSys.dispatchRead fd bufPtr bufLen
  | .write fd bufPtr bufLen l0Pa user => do let _ ← FdSys.dispatchWrite fd bufPtr bufLen l0Pa user

def Enabled (s : FdSys) : FdOp → Prop
  | .proc op => op.Enabled s.os
  | _ => True

/-- The process calls and the calls on pipes as a system of steps. -/
def system : Stepper FdSys Status FdOp := ⟨perform, Enabled⟩

end FdOp

end CapsuleOS
