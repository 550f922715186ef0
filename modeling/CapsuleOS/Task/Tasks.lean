import CapsuleOS.Sync.Futex
import CapsuleOS.Task.Scheduler

/-!
# Blocking calls

The scheduler with the ports and the futex table, and the calls that put threads to sleep and wake
them. As for channels, the part of a call before `schedule` and the part after it are steps of their
own. Of the channel calls only what they do to the scheduler appears: they block the running
thread, mark it running again when a waiting line is full, make it ready when a timed wait gives up,
and wake waiting threads.

Ports exist from the start, empty and without a waiter.
-/
namespace CapsuleOS

open Lib

structure Tasks where
  sched : Scheduler
  ports : Nat → Port
  futexes : FutexTable
  ticks : Nat

abbrev TaskM := Prog Tasks Status

namespace Tasks

def onSched {α : Type} (m : SchedM α) : TaskM α :=
  Prog.zoom Tasks.sched (fun sched s => { s with sched }) m

def modifySched (f : Scheduler → Scheduler) : TaskM Unit :=
  Prog.modify fun s => { s with sched := f s.sched }

def setPort (s : Tasks) (p : Nat) (port : Port) : Tasks :=
  { s with ports := Function.update s.ports p port }

/-- `get_current_thread_ptr().ok_or(ThreadNotFound)`. -/
def currentThread : TaskM Tcb := fun s =>
  match s.sched.getCurrentThread with
  | some t => .ok t s
  | none => .err .threadNotFound s

/-- Write through the pointer to the running thread. -/
def modifyCurrent (f : Tcb → Tcb) : TaskM Unit := modifySched fun s =>
  match s.currentIdx with
  | some i => s.modifyAt i f
  | none => s

/-! ## Ports -/

/-- Register as the waiter of a port and stop in `schedule`. -/
def portBlock (p : Nat) (frame : WaitFrame) : TaskM (Option PortPacket) := do
  let t ← currentThread
  modifyCurrent fun t => { t with portPacketSlot := none, waiting := some frame }
  Prog.modify fun s => s.setPort p { s.ports p with waiter := some t.id }
  onSched Scheduler.block
  return none

/-- `Port::wait` returns a packet that is there, or waits. -/
def portWait (p : Nat) : TaskM (Option PortPacket) := do
  let s ← Prog.get
  match (s.ports p).takeFront (Port.advance (s.ports p).head) with
  | some (pkt, port) =>
    Prog.modify (·.setPort p port)
    return some pkt
  | none => portBlock p (.port p)

/-- The timed wait moves the head behind the tail. -/
def portWaitWithTimeout (p timeoutMs : Nat) : TaskM (Option PortPacket) := do
  let s ← Prog.get
  match (s.ports p).takeFront (Port.advance (s.ports p).tail) with
  | some (pkt, port) =>
    Prog.modify (·.setPort p port)
    return some pkt
  | none =>
    let deadline :=
      if timeoutMs > 0 then some (wadd s.ticks (timeoutMs * 1000 % 2 ^ 64 / 10)) else none
    portBlock p (.portWithTimeout p deadline)

/-- A waiter is made ready by its state alone. -/
def portQueue (p : Nat) (packet : PortPacket) : TaskM Unit := do
  let s ← Prog.get
  let port := { s.ports p with waiter := none }
  Prog.modify (·.setPort p port)
  match (s.ports p).waiter.bind s.sched.slotOf with
  | some i =>
    modifySched (·.modifyAt i fun t => { t with portPacketSlot := some packet, state := .ready })
  | none =>
    match port.append packet with
    | some port => Prog.modify (·.setPort p port)
    | none => Prog.throw .tryAgain

/-- The end of a port wait: the packet in the thread's own slot. -/
def takePacket : TaskM PortPacket := do
  let t ← currentThread
  modifyCurrent fun t => { t with portPacketSlot := none }
  match t.portPacketSlot with
  | some pkt => return pkt
  | none => Prog.throw .canceled

/-- A timed wait that ran out of time. -/
def giveUp : Scheduler → Scheduler := fun s =>
  match s.currentIdx with
  | some i => s.modifyAt i fun t => if t.state = .blocked then t.withState .ready else t
  | none => s

/-- The rest of `Port::wait_with_timeout`. -/
def portTimeoutRest (p : Nat) (deadline : Option Nat) : TaskM PortPacket := do
  let s ← Prog.get
  if deadline.any (s.ticks ≥ ·) then
    Prog.modify fun s => s.setPort p { s.ports p with waiter := none }
    modifySched giveUp
    Prog.throw .timedOut
  else takePacket

/-! ## Futexes -/

/-- `value` is what the caller's word holds. -/
def futexWait (addr expected value : Nat) : TaskM Unit := do
  if value ≠ expected then pure ()
  else
    let t ← currentThread
    let s ← Prog.get
    match (s.futexes.getOrCreateEntry addr).addWaiter t.id with
    | none =>
      Prog.modify fun s => { s with futexes := s.futexes.set addr (s.futexes.getOrCreateEntry addr) }
      Prog.throw .noMemory
    | some e =>
      Prog.modify fun s => { s with futexes := s.futexes.set addr e }
      modifyCurrent fun t => { t with waiting := some (.futex addr) }
      onSched Scheduler.block

/-- The rest of `Futex::wait`. -/
def futexRest (addr : Nat) : TaskM Unit := do
  let t ← currentThread
  let s ← Prog.get
  match (s.futexes.getOrCreateEntry addr).removeWaiter t.id with
  | some e => Prog.modify fun s => { s with futexes := s.futexes.set addr e }
  | none => Prog.fault

def wakeAll (s : Scheduler) (tids : List Nat) : Scheduler := tids.foldl Scheduler.wakeThread s

def futexWake (addr count : Nat) : TaskM Nat := do
  let s ← Prog.get
  match s.futexes (FutexTable.hashAddr addr) with
  | none => return 0
  | some e =>
    if e.head = none then return 0
    else
      let r := e.wakeFromEntry count
      Prog.modify fun s => { s with futexes := s.futexes.set addr r.1 }
      modifySched fun sched => wakeAll sched r.2
      return r.2.length

/-- `Futex::requeue` wakes; nothing moves to the new address. -/
def futexRequeue (addr count _newAddr : Nat) : TaskM Nat := futexWake addr count

/-- The running thread has been switched back to and finishes the call it waited in. -/
def resume : TaskM Unit := do
  let t ← currentThread
  modifyCurrent fun t => { t with waiting := none }
  match t.waiting with
  | none => pure ()
  | some (.port _) => let _ ← takePacket
  | some (.portWithTimeout p deadline) => let _ ← portTimeoutRest p deadline
  | some (.futex addr) => futexRest addr

end Tasks

/-! ## Steps -/

inductive TaskOp where
  | add (thread : Tcb)
  | run
  | tick
  | yield
  | channelBlock
  | channelFull
  | channelGiveUp
  | channelWake (tid : Nat)
  | portWait (port : Nat)
  | portWaitWithTimeout (port timeoutMs : Nat)
  | portQueue (port : Nat) (packet : PortPacket)
  | futexWait (addr expected value : Nat)
  | futexWake (addr count : Nat)
  | futexRequeue (addr count newAddr : Nat)
  | resume
  | threadStart (tid : Nat)
  | die

namespace TaskOp

open Tasks

def exec : TaskOp → TaskM Unit
  | .add thread => onSched (Scheduler.add thread)
  | .run => onSched Scheduler.run
  | .tick => do
    Prog.modify fun s => { s with ticks := s.ticks + 1 }
    onSched Scheduler.schedule
  | .yield => onSched Scheduler.schedule
  | .channelBlock => onSched Scheduler.block
  | .channelFull => modifySched (·.setCurrentState .running)
  | .channelGiveUp => modifySched giveUp
  | .channelWake tid => modifySched (·.wakeThread tid)
  | .portWait p => do let _ ← Tasks.portWait p
  | .portWaitWithTimeout p ms => do let _ ← Tasks.portWaitWithTimeout p ms
  | .portQueue p packet => Tasks.portQueue p packet
  | .futexWait addr expected value => Tasks.futexWait addr expected value
  | .futexWake addr count => do let _ ← Tasks.futexWake addr count
  | .futexRequeue addr count newAddr => do let _ ← Tasks.futexRequeue addr count newAddr
  | .resume => Tasks.resume
  | .threadStart tid => onSched (Scheduler.threadStart tid)
  | .die => onSched Scheduler.die

/-- The scheduler is started once. -/
def Enabled (s : Tasks) : TaskOp → Prop
  | .run => s.sched.running = false
  | _ => True

end TaskOp

end CapsuleOS
