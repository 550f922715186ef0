import CapsuleOS.Lib.Runs
import CapsuleOS.Lib.Slots
import CapsuleOS.Task.Tasks
import CapsuleOS.Vfs.Pipe

/-!
# Processes

The process table, the calls that create, end and reap processes, and signals. A process and its
threads are tied together by the process id alone: no call looks at both states at once.

Of a process only the fields of its life cycle appear here, and its file descriptors. What `launch_user_program` does to
memory shows up as the way it ends, since it can fail after the process has its slot; arguments and
strings that a call copies from the caller show up as an early error. The ids come from 64-bit
counters, which are numbers without bound here.

One field is not in the source: `reaped` lists the ids of the processes that were waited for.
-/
namespace CapsuleOS

open Lib

def maxProcesses : Nat := 8
def nsig : Nat := 32
def sigDfl : Nat := 0
def sigIgn : Nat := 1
def sigDflKillExit : Int := -1

inductive ProcessState where
  | initial
  | running
  | zombie
  | dead
  deriving DecidableEq, Repr

inductive FdEntry where
  | pipe (pipe : Nat) (role : PipeRole)
  deriving DecidableEq, Repr

def userFdBase : Nat := 3
def fdTableSize : Nat := 16

structure Process where
  id : Nat
  state : ProcessState
  exitStatus : Option Int
  parentPid : Nat
  sigHandlers : Fin nsig → Nat
  pendingSignals : BitVec nsig
  fdTable : Fin fdTableSize → Option FdEntry
  nextFd : Nat

namespace Process

/-- What a slot holds before `init_in_place` has filled it in. -/
def newDummy : Process where
  id := 0
  state := .initial
  exitStatus := none
  parentPid := 0
  sigHandlers _ := sigDfl
  pendingSignals := 0
  fdTable _ := none
  nextFd := userFdBase

def init (id parentPid : Nat) : Process := { newDummy with id, parentPid }

def toZombie (p : Process) (code : Int) : Process :=
  { p with exitStatus := some code, state := .zombie }

/-- What `wait4` asks of a child before it takes it out of the table. -/
def reapable (p : Process) : Bool := p.exitStatus.isSome && p.state == .zombie

/-- A child of `caller` that the argument of a wait call selects. -/
def isChild (caller : Nat) (pid : Int) (p : Process) : Bool :=
  p.parentPid == caller && (decide (pid ≤ 0) || (p.id : Int) == pid)

def raiseSignal (p : Process) (sig : Nat) : Process :=
  { p with pendingSignals := p.pendingSignals ||| (BitVec.ofNat nsig 1 <<< (sig - 1)) }

def clearSignal (p : Process) (n : Fin nsig) : Process :=
  { p with pendingSignals := p.pendingSignals &&& ~~~(BitVec.ofNat nsig 1 <<< n.val) }

/-- The scan over the signals that were pending at its start. -/
def dispatchLoop (pending : BitVec nsig) : List (Fin nsig) → Process → Bool × Process
  | [], p => (false, p)
  | n :: ns, p =>
    if pending.getLsbD n then
      if p.sigHandlers n = sigIgn then dispatchLoop pending ns (p.clearSignal n)
      else (true, { p.toZombie sigDflKillExit with pendingSignals := 0 })
    else dispatchLoop pending ns p

/-- `true` if a signal has ended the process. -/
def dispatchPending (p : Process) : Bool × Process :=
  if p.pendingSignals = 0 then (false, p)
  else dispatchLoop p.pendingSignals (List.finRange nsig) p

end Process

/-- A thread of a process, as `Thread::new_user` and its two callers leave it. -/
def Tcb.newUser (id pid : Nat) : Tcb where
  id
  state := .initial
  priority := .normal
  processId := pid
  ipcBuf := []
  ipcActualLen := 0
  ipcTransferHandles := [none, none, none, none]
  handleTable := some pid
  ipcTransferSlots := [none, none]
  call := none
  timeSlice := defaultTimeSlice
  remainingTicks := defaultTimeSlice
  portPacketSlot := none
  waiting := none

structure Os where
  tasks : Tasks
  processes : Slots Process maxProcesses
  processIdCounter : Nat
  threadIdCounter : Nat
  reaped : List Nat

abbrev OsM := Prog Os Status

/-- How a launch ends: with an error before a process is allocated, in `init_in_place`, while its
memory is built, after the thread has been made, or with a thread in the scheduler. -/
inductive LaunchEnd where
  | early (e : Status)
  | init (e : Status)
  | memory (e : Status)
  | argv (e : Status)
  | done
  deriving DecidableEq

namespace Os

def onTasks {α : Type} (m : TaskM α) : OsM α := Prog.zoom Os.tasks (fun tasks s => { s with tasks }) m

def onSched {α : Type} (m : SchedM α) : OsM α := onTasks (Tasks.onSched m)

def sched (s : Os) : Scheduler := s.tasks.sched

def findProcess (s : Os) (pid : Nat) : Option Process := s.processes.find? (·.id == pid)

/-- Write through the pointer of `find_process_mut`. -/
def updateProcess (pid : Nat) (f : Process → Process) : OsM Unit :=
  Prog.modify fun s => { s with processes := s.processes.modify (·.id == pid) f }

def currentProcessId : OsM Nat := fun s =>
  match s.sched.getCurrentThread with
  | some t => .ok t.processId s
  | none => .err .notFound s

/-- `find_process_mut(pid).ok_or(NotFound)`. -/
def lookupProcess (pid : Nat) : OsM Process := fun s =>
  match s.findProcess pid with
  | some p => .ok p s
  | none => .err .notFound s

/-! ## Creation -/

/-- `allocate_process`, and the parent that its caller writes into the new process. A failed
`init_in_place` leaves the placeholder in the slot. -/
def allocateProcess (parentPid : Nat) (initError : Option Status) : OsM Nat := fun s =>
  match initError with
  | some e =>
    match s.processes.insert? Process.newDummy with
    | some processes => .err e { s with processes }
    | none => .err .noMemory s
  | none =>
    match s.processes.insert? (Process.init s.processIdCounter parentPid) with
    | some processes =>
      .ok s.processIdCounter { s with processes, processIdCounter := s.processIdCounter + 1 }
    | none => .err .noMemory s

/-- `Thread::new_user`; the id is taken once the kernel stack is there. -/
def newThread (stackError : Option Status) (pid : Nat) : OsM Tcb := fun s =>
  match stackError with
  | some e => .err e s
  | none =>
    .ok (Tcb.newUser s.threadIdCounter pid) { s with threadIdCounter := s.threadIdCounter + 1 }

def launch (parentPid : Nat) : LaunchEnd → OsM Nat
  | .early e => Prog.throw e
  | .init e => allocateProcess parentPid (some e)
  | .memory e => do
    let _ ← allocateProcess parentPid none
    Prog.throw e
  | .argv e => do
    let pid ← allocateProcess parentPid none
    let _ ← newThread none pid
    Prog.throw e
  | .done => do
    let pid ← allocateProcess parentPid none
    let thread ← newThread none pid
    onSched (Scheduler.add thread)
    return pid

def spawn (last : LaunchEnd) : OsM Nat := do
  let caller ← currentProcessId
  let _ ← lookupProcess caller
  launch caller last

def threadCreate (pid : Nat) (stackError : Option Status) : OsM Unit := do
  let p ← lookupProcess pid
  let thread ← newThread stackError p.id
  onSched (Scheduler.add thread)

/-! ## The end of a thread -/

def markProcessZombie (pid : Nat) (code : Int) : OsM Unit := updateProcess pid (·.toZombie code)

def exit (code : Int) : OsM Unit := do
  let s ← Prog.get
  match s.sched.getCurrentThread with
  | some t => markProcessZombie t.processId code
  | none => pure ()
  onSched Scheduler.die

/-- The new program has no parent. -/
def exec (last : LaunchEnd) : OsM Unit := do
  let _ ← launch 0 last
  onSched Scheduler.die

def execve (last : LaunchEnd) : OsM Unit := do
  let _ ← spawn last
  onSched Scheduler.die

/-- A fault or SError at EL0 kills the running thread. -/
def fault : OsM Unit := onSched Scheduler.die

def procMgmtExit (pid : Nat) (code : Int) : OsM Unit := do
  let _ ← lookupProcess pid
  markProcessZombie pid code

/-! ## Waiting -/

/-- Take the first child that fits and can be reaped out of the table. -/
def reap (caller : Nat) (pid : Int) : OsM (Option Process) := fun s =>
  match s.processes.take? fun p => p.isChild caller pid && p.reapable with
  | some (p, processes) => .ok (some p) { s with processes, reaped := s.reaped ++ [p.id] }
  | none => .ok none s

def wait4 (pid : Int) : OsM Nat := do
  let caller ← currentProcessId
  if pid < -1 then Prog.throw .invalidArgs
  else
    match ← reap caller pid with
    | some p => return p.id
    | none =>
      let s ← Prog.get
      if (s.processes.find? (Process.isChild caller pid)).isSome then Prog.throw .tryAgain
      else Prog.throw .notFound

/-- The exit code of the child, as a `u32`. -/
def procMgmtWait (pid : Int) : OsM Nat := do
  let caller ← currentProcessId
  match ← reap caller pid with
  | some p => return ((p.exitStatus.getD 0) % 2 ^ 32).toNat
  | none => Prog.throw .tryAgain

/-! ## Signals -/

def sigactionSet (sig handler : Nat) : OsM Nat := do
  if h : 0 < sig ∧ sig ≤ nsig then
    if handler ≠ sigDfl ∧ handler ≠ sigIgn then Prog.throw .invalidArgs
    else
      let caller ← currentProcessId
      let p ← lookupProcess caller
      let idx : Fin nsig := ⟨sig - 1, by omega⟩
      updateProcess caller fun p => { p with sigHandlers := Function.update p.sigHandlers idx handler }
      return p.sigHandlers idx
  else Prog.throw .invalidArgs

def signalSend (pid sig : Nat) : OsM Unit := do
  if sig = 0 ∨ sig > nsig then Prog.throw .invalidArgs
  else
    let _ ← lookupProcess pid
    updateProcess pid (·.raiseSignal sig)

def raise (sig : Nat) : OsM Unit := do
  if sig = 0 ∨ sig > nsig then Prog.throw .invalidArgs
  else
    let caller ← currentProcessId
    signalSend caller sig
    let s ← Prog.get
    if (s.findProcess caller).any (·.state == .zombie) then Prog.throw .notAllowed else pure ()

def kill (pid : Int) (sig : Nat) : OsM Unit := do
  let caller ← currentProcessId
  if pid < 0 then Prog.throw .invalidArgs
  else
    let s ← Prog.get
    if pid = 0 then
      let children := (s.processes.occupants.filter (·.parentPid == caller)).map (·.id)
      Prog.forEach (signalSend · sig) children
      if children = [] then Prog.throw .notFound else pure ()
    else
      let target := pid.toNat
      if target = caller then signalSend target sig
      else
        let p ← lookupProcess target
        if p.parentPid ≠ caller then Prog.throw .accessDenied else signalSend target sig

/-- One round of the loop of `sys_pause`; after `schedule` the next round is a new step. -/
def pause : OsM Unit := do
  let caller ← currentProcessId
  let p ← lookupProcess caller
  if p.state = .zombie then pure ()
  else
    let (ended, _) := p.dispatchPending
    updateProcess caller fun p => p.dispatchPending.2
    if ended then pure () else onSched Scheduler.schedule

end Os

/-! ## Steps -/

inductive ProcOp where
  | task (op : TaskOp)
  | launch (last : LaunchEnd)
  | spawn (last : LaunchEnd)
  | exec (last : LaunchEnd)
  | execve (last : LaunchEnd)
  | processCreate (initError : Option Status)
  | procMgmtCreate (parentPid : Nat) (initError : Option Status)
  | threadCreate (pid : Nat) (stackError : Option Status)
  | exit (code : Int)
  | fault
  | procMgmtExit (pid : Nat) (code : Int)
  | wait4 (pid : Int)
  | procMgmtWait (pid : Int)
  | sigaction (sig handler : Nat)
  | raise (sig : Nat)
  | kill (pid : Int) (sig : Nat)
  | pause

namespace ProcOp

def perform : ProcOp → OsM Unit
  | .task op => Os.onTasks op.exec
  | .launch last => do let _ ← Os.launch 0 last
  | .spawn last => do let _ ← Os.spawn last
  | .exec last => Os.exec last
  | .execve last => Os.execve last
  | .processCreate e => do let _ ← Os.allocateProcess 0 e
  | .procMgmtCreate parentPid e => do let _ ← Os.allocateProcess parentPid e
  | .threadCreate pid e => Os.threadCreate pid e
  | .exit code => Os.exit code
  | .fault => Os.fault
  | .procMgmtExit pid code => Os.procMgmtExit pid code
  | .wait4 pid => do let _ ← Os.wait4 pid
  | .procMgmtWait pid => do let _ ← Os.procMgmtWait pid
  | .sigaction sig handler => do let _ ← Os.sigactionSet sig handler
  | .raise sig => Os.raise sig
  | .kill pid sig => Os.kill pid sig
  | .pause => Os.pause

/-- Threads are added and die through the calls above only, and a process handle names a process
that was given an id. -/
def Enabled (s : Os) : ProcOp → Prop
  | .task (.add _) => False
  | .task .die => False
  | .task op => op.Enabled s.tasks
  | .threadCreate pid _ => pid ≠ 0
  | _ => True

instance (s : Os) (op : ProcOp) : Decidable (op.Enabled s) := by
  cases op with
  | task op =>
    cases op with
    | add | die => exact .isFalse id
    | run => exact inferInstanceAs (Decidable (s.sched.running = false))
    | _ => exact .isTrue trivial
  | threadCreate pid _ => exact inferInstanceAs (Decidable (pid ≠ 0))
  | _ => exact .isTrue trivial

/-- The process calls as a system of steps. -/
def system : Stepper Os Status ProcOp := ⟨perform, Enabled⟩

end ProcOp

end CapsuleOS
