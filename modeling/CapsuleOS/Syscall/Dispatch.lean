import CapsuleOS.Lib.Calls
import CapsuleOS.Lib.Fields
import CapsuleOS.Shared.Status

/-!
# The system call dispatcher

`syscall_dispatch` and the two tables under it. A handler is an operation of the environment: `Call`
lists the handlers with their parameters, under the parameters' own names, and `Call.Value` is the type
of what each returns. So the dispatcher is exactly what it decides itself: which handler a number means, which
register goes to which parameter, and how a result goes back into the register.
-/
namespace CapsuleOS.Syscall

open Lib

abbrev Word := BitVec 64

/-- `HandleValue(u32)`. -/
abbrev HandleValue := BitVec 32

section Numbers

@[match_pattern] abbrev syscallExit : BitVec 32 := 0
@[match_pattern] abbrev syscallWrite : BitVec 32 := 1
@[match_pattern] abbrev syscallGetTid : BitVec 32 := 2
@[match_pattern] abbrev syscallGetPid : BitVec 32 := 3
@[match_pattern] abbrev syscallChannelCreate : BitVec 32 := 10
@[match_pattern] abbrev syscallChannelRead : BitVec 32 := 11
@[match_pattern] abbrev syscallChannelWrite : BitVec 32 := 12
@[match_pattern] abbrev syscallChannelCall : BitVec 32 := 13
@[match_pattern] abbrev syscallChannelRegister : BitVec 32 := 14
@[match_pattern] abbrev syscallChannelLookup : BitVec 32 := 15
@[match_pattern] abbrev syscallHandleDuplicate : BitVec 32 := 16
@[match_pattern] abbrev syscallPortCreate : BitVec 32 := 20
@[match_pattern] abbrev syscallPortWait : BitVec 32 := 21
@[match_pattern] abbrev syscallPortQueue : BitVec 32 := 22
@[match_pattern] abbrev syscallVmoCreate : BitVec 32 := 30
@[match_pattern] abbrev syscallVmoRead : BitVec 32 := 31
@[match_pattern] abbrev syscallVmoWrite : BitVec 32 := 32
@[match_pattern] abbrev syscallVmoGetSize : BitVec 32 := 33
@[match_pattern] abbrev syscallVmoSetSize : BitVec 32 := 34
@[match_pattern] abbrev syscallVmoCreateChild : BitVec 32 := 35
@[match_pattern] abbrev syscallVmarMap : BitVec 32 := 40
@[match_pattern] abbrev syscallVmarUnmap : BitVec 32 := 41
@[match_pattern] abbrev syscallVmarProtect : BitVec 32 := 42
@[match_pattern] abbrev syscallVmarMapSelf : BitVec 32 := 43
@[match_pattern] abbrev syscallThreadCreate : BitVec 32 := 50
@[match_pattern] abbrev syscallThreadStart : BitVec 32 := 51
@[match_pattern] abbrev syscallThreadExit : BitVec 32 := 52
@[match_pattern] abbrev syscallProcessCreate : BitVec 32 := 60
@[match_pattern] abbrev syscallProcessStart : BitVec 32 := 61
@[match_pattern] abbrev syscallProcessExit : BitVec 32 := 62
@[match_pattern] abbrev syscallEventCreate : BitVec 32 := 70
@[match_pattern] abbrev syscallEventSignal : BitVec 32 := 71
@[match_pattern] abbrev syscallEventAck : BitVec 32 := 72
@[match_pattern] abbrev syscallTimerCreate : BitVec 32 := 80
@[match_pattern] abbrev syscallTimerSet : BitVec 32 := 81
@[match_pattern] abbrev syscallTimerCancel : BitVec 32 := 82
@[match_pattern] abbrev syscallWait4 : BitVec 32 := 88
@[match_pattern] abbrev syscallFutexWait : BitVec 32 := 90
@[match_pattern] abbrev syscallFutexWake : BitVec 32 := 91
@[match_pattern] abbrev syscallSigaction : BitVec 32 := 92
@[match_pattern] abbrev syscallRaise : BitVec 32 := 93
@[match_pattern] abbrev syscallKill : BitVec 32 := 94
@[match_pattern] abbrev syscallPause : BitVec 32 := 95
@[match_pattern] abbrev syscallPipe : BitVec 32 := 96
@[match_pattern] abbrev syscallDup2 : BitVec 32 := 97
@[match_pattern] abbrev syscallClose : BitVec 32 := 101
@[match_pattern] abbrev syscallRead : BitVec 32 := 102
@[match_pattern] abbrev syscallGetcwd : BitVec 32 := 104
@[match_pattern] abbrev syscallChdir : BitVec 32 := 105
@[match_pattern] abbrev syscallExec : BitVec 32 := 110
@[match_pattern] abbrev syscallLoadBinary : BitVec 32 := 111
@[match_pattern] abbrev syscallExecve : BitVec 32 := 112
@[match_pattern] abbrev syscallSpawn : BitVec 32 := 113
@[match_pattern] abbrev syscallYield : BitVec 32 := 114
@[match_pattern] abbrev syscallServiceSpawn : BitVec 32 := 115
@[match_pattern] abbrev syscallProcMgmt : BitVec 32 := 120

end Numbers

/-- The handlers, each with the parameters it is called with. `table` is the address of the handle
table. -/
inductive Call where
  | sysVmarMap (table : Word) (processHandleRaw vmoHandleRaw : BitVec 32)
      (vmoOffset size vaddrOffset : Word) (flagsRaw : BitVec 32)
  | sysVmarMapSelf (table : Word) (vmoHandleRaw : BitVec 32) (vaddrOffset size : Word)
      (flagsRaw : BitVec 32)
  | sysVmarUnmap (vaddrOffset size : Word)
  | sysVmoCreate (table size : Word)
  | sysVmoCreateChild (table : Word) (parentVmoHandleRaw : BitVec 32) (offset size : Word)
  | sysVmoRead (table : Word) (handleRaw : BitVec 32) (vmoOffset userDstVa len : Word)
  | sysVmoWrite (table : Word) (handleRaw : BitVec 32) (vmoOffset userSrcVa len : Word)
  | sysChannelCreate (table : Word)
  | sysChannelRead (table : Word) (handleRaw : BitVec 32) (bufPtr bufLen handlesPtr handlesLen : Word)
  | sysChannelWrite (table : Word) (handleRaw : BitVec 32) (bufPtr bufLen handlesPtr handlesLen : Word)
  | sysChannelRegister (table namePtr nameLen : Word) (handleRaw : BitVec 32)
  | sysChannelLookup (table namePtr nameLen : Word)
  | duplicateHandle (table : Word) (hv : HandleValue) (requiredRights : BitVec 32)
  | close (table : Word) (hv : HandleValue)
  | sysProcessCreate (table namePtr nameLen : Word)
  | sysThreadCreate (table : Word) (processHandleRaw : BitVec 32) (namePtr nameLen entry stackTop : Word)
  | sysThreadStart (table : Word) (threadHandleRaw : BitVec 32)
  | sysExec (table : Word) (programName : String)
  | sysExecve (table pathPtr pathLen argvPtr argvCount : Word)
  | sysLoadBinary (table : Word) (vmoHandleRaw : BitVec 32) (namePtr nameLen vmoOffset : Word)
  | sysServiceSpawn (table descPtr : Word)
  | sysSpawn (table pathPtr pathLen argvPtr argvCount : Word)
  | sysProcMgmt (table : Word) (cmd : BitVec 32) (arg1 arg2 arg3 : Word)
  | sysGetcwd (bufPtr bufLen : Word)
  | sysChdir (pathPtr pathLen : Word)
  | sysWait4 (table pid statusOutPtr : Word) (options : BitVec 32)
  | sysSigaction (table sig saHandler mask flags : Word)
  | sysRaise (table sig : Word)
  | sysKill (table pid sig : Word)
  | sysPause (table : Word)
  | sysPipe (table ufdsPtr : Word)
  | sysDup2 (table : Word) (oldfd newfd : BitVec 32)
  | sysGettid
  | sysGetpid
  | sysRead (fd : BitVec 32) (bufPtr bufLen : Word)

/-- What a handler returns when it succeeds. -/
def Call.Value : Call → Type
  | .sysVmoCreate .. | .sysVmoCreateChild .. | .sysChannelLookup .. | .duplicateHandle ..
  | .sysProcessCreate .. | .sysThreadCreate .. => HandleValue
  | .sysChannelCreate .. => HandleValue × HandleValue
  | .sysDup2 .. => BitVec 32
  | .sysVmarMap .. | .sysVmarMapSelf .. | .sysVmoRead .. | .sysVmoWrite .. | .sysChannelRead ..
  | .sysChannelWrite .. | .sysLoadBinary .. | .sysServiceSpawn .. | .sysSpawn .. | .sysProcMgmt ..
  | .sysGetcwd .. | .sysChdir .. | .sysWait4 .. | .sysSigaction .. | .sysGettid | .sysGetpid
  | .sysRead .. => Word
  | .sysVmarUnmap .. | .sysChannelRegister .. | .close .. | .sysThreadStart .. | .sysExec ..
  | .sysExecve .. | .sysRaise .. | .sysKill .. | .sysPause .. | .sysPipe .. => Unit

/-- What the dispatcher calls: a handler that returns a `Result`, or one of the three routines that do
not. `sys_exit` does not return at all. -/
inductive Routine where
  | handler (c : Call)
  | sysWrite (fd ptr len : Word)
  | schedule
  | sysExit (code : BitVec 32)

def Routine.Reply : Routine → Type
  | .handler c => Except Status c.Value
  | .sysWrite .. => Word
  | .schedule => Unit
  | .sysExit .. => Empty

/-- A routine runs with the caller's memory in reach. -/
structure Trap where
  mem : Mem
  routine : Routine

abbrev Trap.Reply (t : Trap) : Type := t.routine.Reply

abbrev Kernel := Calls Trap.Reply

/-- A result goes back in one register: the value as a word, or the raw status. -/
def settle {α : Type} (word : α → Word) : Except Status α → Word
  | .ok v => word v
  | .error e => e.toRaw

/-- The arm of most system calls: one handler, its result settled. -/
def handled (mem : Mem) (c : Call) (word : c.Value → Word) : Option (Kernel Word) :=
  some (.call ⟨mem, .handler c⟩ fun r => .ret (settle word r))

/-- `hv.get() as usize`. -/
def handleWord (hv : HandleValue) : Word := hv.setWidth 64

def dispatchCapability (mem : Mem) (table : Word) (syscallNum : BitVec 32)
    (arg0 arg1 arg2 arg3 arg4 arg5 : Word) : Option (Kernel Word) :=
  match syscallNum with
  | syscallVmarMap => handled mem (.sysVmarMap table (arg0.setWidth 32) (arg1.setWidth 32) arg2 arg3 arg4
      (arg5.setWidth 32)) fun va => va
  | syscallVmarMapSelf => handled mem (.sysVmarMapSelf table (arg0.setWidth 32) arg1 arg2
      (arg3.setWidth 32)) fun va => va
  | syscallVmarUnmap => handled mem (.sysVmarUnmap arg0 arg1) fun _ => 0
  | syscallVmoCreate => handled mem (.sysVmoCreate table arg0) handleWord
  | syscallVmoCreateChild =>
    handled mem (.sysVmoCreateChild table (arg0.setWidth 32) arg1 arg2) handleWord
  | syscallVmoRead => handled mem (.sysVmoRead table (arg0.setWidth 32) arg1 arg2 arg3) fun n => n
  | syscallVmoWrite =>
    handled mem (.sysVmoWrite table (arg0.setWidth 32) arg1 arg2 arg3) fun n => n
  | syscallChannelCreate => handled mem (.sysChannelCreate table)
      fun hs => handleWord hs.1 ||| handleWord hs.2 <<< 32
  | syscallChannelRead =>
    handled mem (.sysChannelRead table (arg0.setWidth 32) arg1 arg2 arg3 arg4) fun n => n
  | syscallChannelWrite =>
    handled mem (.sysChannelWrite table (arg0.setWidth 32) arg1 arg2 arg3 arg4) fun n => n
  | syscallChannelRegister =>
    handled mem (.sysChannelRegister table arg0 arg1 (arg2.setWidth 32)) fun _ => 0
  | syscallChannelLookup => handled mem (.sysChannelLookup table arg0 arg1) handleWord
  | syscallHandleDuplicate =>
    handled mem (.duplicateHandle table (arg0.setWidth 32) (arg1.setWidth 32)) handleWord
  | syscallClose => handled mem (.close table (arg0.setWidth 32)) fun _ => 0
  | _ => none

/-- `SYSCALL_EXEC` is the one arm that reads its argument itself: the name is checked to be UTF-8. -/
def exec (mem : Mem) (table namePtr nameLen : Word) : Kernel Word :=
  if namePtr = 0 ∨ nameLen = 0 then .ret Status.invalidArgs.toRaw
  else match String.fromUTF8? ⟨(mem.load namePtr.toNat nameLen.toNat).toArray⟩ with
    | some s => .call ⟨mem, .handler (.sysExec table s)⟩ fun r => .ret (settle (fun _ => 0) r)
    | none => .ret Status.invalidArgs.toRaw

def dispatchLifecycle (mem : Mem) (table : Word) (syscallNum : BitVec 32)
    (arg0 arg1 arg2 arg3 arg4 _arg5 : Word) : Option (Kernel Word) :=
  match syscallNum with
  | syscallExit => some (.call ⟨mem, .sysExit (arg0.setWidth 32)⟩ Empty.elim)
  | syscallProcessCreate => handled mem (.sysProcessCreate table arg0 arg1) handleWord
  | syscallThreadCreate =>
    handled mem (.sysThreadCreate table (arg0.setWidth 32) arg1 arg2 arg3 arg4) handleWord
  | syscallThreadStart => handled mem (.sysThreadStart table (arg0.setWidth 32)) fun _ => 0
  | syscallExec => some (exec mem table arg0 arg1)
  | syscallExecve => handled mem (.sysExecve table arg0 arg1 arg2 arg3) fun _ => 0
  | syscallLoadBinary =>
    handled mem (.sysLoadBinary table (arg0.setWidth 32) arg1 arg2 arg3) fun pid => pid
  | syscallServiceSpawn => handled mem (.sysServiceSpawn table arg0) fun pid => pid
  | syscallSpawn => handled mem (.sysSpawn table arg0 arg1 arg2 arg3) fun pid => pid
  | syscallYield => some (.call ⟨mem, .schedule⟩ fun _ => .ret 0)
  | syscallProcMgmt => handled mem (.sysProcMgmt table (arg0.setWidth 32) arg1 arg2 arg3) fun v => v
  | syscallGetcwd => handled mem (.sysGetcwd arg0 arg1) fun n => n
  | syscallChdir => handled mem (.sysChdir arg0 arg1) fun _ => 0
  | syscallWait4 => handled mem (.sysWait4 table arg0 arg1 (arg2.setWidth 32)) fun pid => pid
  | syscallSigaction => handled mem (.sysSigaction table arg0 arg1 arg2 arg3) fun prev => prev
  | syscallRaise => handled mem (.sysRaise table arg0) fun _ => 0
  | syscallKill => handled mem (.sysKill table arg0 arg1) fun _ => 0
  | syscallPause => handled mem (.sysPause table) fun _ => 0
  | syscallPipe => handled mem (.sysPipe table arg0) fun _ => 0
  | syscallDup2 => handled mem (.sysDup2 table (arg0.setWidth 32) (arg1.setWidth 32)) handleWord
  | syscallGetTid => handled mem .sysGettid fun tid => tid
  | syscallGetPid => handled mem .sysGetpid fun pid => pid
  | syscallThreadExit | syscallProcessStart | syscallProcessExit | syscallVmoGetSize | syscallVmoSetSize
  | syscallVmarProtect | syscallChannelCall | syscallPortCreate | syscallPortWait | syscallPortQueue
  | syscallEventCreate | syscallEventSignal | syscallEventAck | syscallTimerCreate | syscallTimerSet
  | syscallTimerCancel | syscallFutexWait | syscallFutexWake => some (.ret Status.notAllowed.toRaw)
  | _ => none

/-- Where the dispatcher finds a handle table: the table of the running thread, if there is a thread and
its pointer is not null, else the global one. -/
structure Tables where
  currentThread : Option Word
  globalHandleTable : Word

def Tables.handleTable (ts : Tables) : Option Word :=
  if ts.globalHandleTable = 0 then none else some ts.globalHandleTable

def Tables.table (ts : Tables) : Option Word :=
  match ts.currentThread with
  | some t => if t ≠ 0 then some t else ts.handleTable
  | none => ts.handleTable

/-- The console calls come before both tables. -/
def console (mem : Mem) (syscallNum : BitVec 32) (arg0 arg1 arg2 : Word) : Option (Kernel Word) :=
  match syscallNum with
  | syscallWrite => if arg0 = 1 ∨ arg0 = 2 then some (.call ⟨mem, .sysWrite arg0 arg1 arg2⟩ .ret) else none
  | syscallRead => if arg0 = 0 then handled mem (.sysRead 0 arg1 arg2) fun n => n else none
  | _ => none

def syscallDispatch (ts : Tables) (mem : Mem) (syscallNum : BitVec 32)
    (arg0 arg1 arg2 arg3 arg4 arg5 : Word) : Kernel Word :=
  match ts.table with
  | none => .ret Status.notAllowed.toRaw
  | some table =>
    (console mem syscallNum arg0 arg1 arg2
      <|> dispatchCapability mem table syscallNum arg0 arg1 arg2 arg3 arg4 arg5
      <|> dispatchLifecycle mem table syscallNum arg0 arg1 arg2 arg3 arg4 arg5).getD
      (.ret Status.notAllowed.toRaw)

/-- The registers a system call is made with. -/
structure Regs where
  x0 : Word
  x1 : Word
  x2 : Word
  x3 : Word
  x4 : Word
  x5 : Word
  x16 : Word

/-- The system call branch of `aarch64_sync_el0_handler`: the word it writes to `x0`. -/
def syncEl0Handler (ts : Tables) (mem : Mem) (frame : Regs) : Kernel Word :=
  syscallDispatch ts mem (frame.x16.setWidth 32) frame.x0 frame.x1 frame.x2 frame.x3 frame.x4 frame.x5

end CapsuleOS.Syscall
