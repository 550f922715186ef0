import CapsuleOS.Lib.Ring
import CapsuleOS.Task.Tasks

/-!
# Port calls up to `schedule`

A port wait runs up to `schedule`, and its rest runs when the thread is switched back to. Between the
two any other thread may run. Here the two parts are routines of their own, made by a given thread, so
that the order of the parts of different calls is free; `portWait_eq` and `portWaitWithTimeout_eq` say
that the calls of the source begin with these parts and then give way.
-/
namespace CapsuleOS

open Lib

/-- The thread is inside a wait on the port. -/
def Tcb.WaitsOn (p : Nat) (t : Tcb) : Prop :=
  t.waiting = some (.port p) ∨ ∃ deadline, t.waiting = some (.portWithTimeout p deadline)

/-! ## Threads by their ids -/

namespace Scheduler

def DistinctIds (s : Scheduler) : Prop :=
  ∀ i j t u, s.threads i = some t → s.threads j = some u → t.id = u.id → i = j

variable {s s' : Scheduler} {i : Fin maxThreads} {t t' : Tcb}

theorem DistinctIds.slotOf (h : s.DistinctIds) (thread : s.threads i = some t) :
    s.slotOf t.id = some i := by
  have hit : (s.threads i).any (·.id == t.id) = true := by simp [thread]
  cases found : s.slotOf t.id with
  | none =>
    have miss := List.find?_eq_none.mp found i (List.mem_finRange i)
    exact absurd hit miss
  | some j =>
    have holds := List.find?_some found
    simp only [Option.any_eq_true, beq_iff_eq] at holds
    obtain ⟨u, at_j, same⟩ := holds
    rw [h j i u t at_j thread same]

/-- A thread keeps its id. -/
theorem DistinctIds.update (h : s.DistinctIds) (thread : s.threads i = some t)
    (threads : s'.threads = Function.update s.threads i (some t')) (same : t'.id = t.id) :
    s'.DistinctIds := by
  have back : ∀ j u, s'.threads j = some u → ∃ v, s.threads j = some v ∧ v.id = u.id := by
    intro j u at_j
    rw [threads, Function.update_apply] at at_j
    split_ifs at at_j with eq
    · cases at_j
      exact ⟨t, eq ▸ thread, same.symm⟩
    · exact ⟨u, at_j, rfl⟩
  intro j k u v at_j at_k ids
  obtain ⟨u', old_j, uj⟩ := back j u at_j
  obtain ⟨v', old_k, vk⟩ := back k v at_k
  exact h j k u' v' old_j old_k (by rw [uj, vk, ids])

end Scheduler

/-! ## The parts of the calls -/

/-- The thread registers for the call. -/
def Tcb.registered (frame : WaitFrame) (t : Tcb) : Tcb :=
  { t with portPacketSlot := none, waiting := some frame, state := .blocked }

/-- The thread is given a packet. -/
def Tcb.handed (packet : PortPacket) (t : Tcb) : Tcb :=
  { t with portPacketSlot := some packet, state := .ready }

/-- The thread has left its wait with the packet. -/
def Tcb.returned (t : Tcb) : Tcb := { t with waiting := none, portPacketSlot := none }

namespace Tasks

/-- The running thread registers on a port and is marked blocked. -/
def portRegister (p : Nat) (frame : WaitFrame) : TaskM Unit := do
  let t ← currentThread
  modifyCurrent (Tcb.registered frame)
  Prog.modify fun s => s.setPort p { s.ports p with waiter := some t.id }

/-- Take the packet that is there, or register. -/
def portTry (p : Nat) (next : Fin portQueueMax) (frame : WaitFrame) : TaskM (Option PortPacket) := do
  let s ← Prog.get
  match (s.ports p).takeFront next with
  | some (pkt, port) =>
    Prog.modify (·.setPort p port)
    return some pkt
  | none =>
    portRegister p frame
    return none

/-- `Port::wait` up to `schedule`. -/
def portWaitTry (p : Nat) : TaskM (Option PortPacket) := do
  let s ← Prog.get
  portTry p (Port.advance (s.ports p).head) (.port p)

def portDeadline (s : Tasks) (timeoutMs : Nat) : Option Nat :=
  if timeoutMs > 0 then some (wadd s.ticks (timeoutMs * 1000 % 2 ^ 64 / 10)) else none

/-- `Port::wait_with_timeout` up to `schedule`. -/
def portWaitWithTimeoutTry (p timeoutMs : Nat) : TaskM (Option PortPacket) := do
  let s ← Prog.get
  portTry p (Port.advance (s.ports p).tail) (.portWithTimeout p (s.portDeadline timeoutMs))

/-- What is left of either wait when the thread is switched back to. -/
def portRest : TaskM PortPacket := do
  let t ← currentThread
  modifyCurrent fun t => { t with waiting := none }
  match t.waiting with
  | some (.port _) => takePacket
  | some (.portWithTimeout p deadline) => portTimeoutRest p deadline
  | _ => Prog.fault

/-! ## The calls of the source -/

/-- A call that has registered gives way. -/
def giveWay : Option PortPacket → TaskM (Option PortPacket)
  | some pkt => return some pkt
  | none => do
    onSched Scheduler.schedule
    return none

theorem portBlock_eq (p : Nat) (frame : WaitFrame) :
    portBlock p frame = (do portRegister p frame; giveWay none) := by
  funext s
  cases idx : s.sched.currentIdx with
  | none => simp [portBlock, portRegister, currentThread, Scheduler.getCurrentThread, idx,
      Prog.bind_apply]
  | some i =>
    cases thread : s.sched.threads i with
    | none => simp [portBlock, portRegister, currentThread, Scheduler.getCurrentThread, idx, thread,
        Prog.bind_apply]
    | some t =>
      simp [portBlock, portRegister, giveWay, currentThread, Scheduler.getCurrentThread, idx, thread,
        Prog.bind_apply, modifyCurrent, modifySched, onSched, Prog.zoom, Scheduler.block,
        Scheduler.setCurrentState, Scheduler.modifyAt, Scheduler.setThread, setPort, Tcb.withState,
        Tcb.registered]

theorem portTry_giveWay (p : Nat) (next : Fin portQueueMax) (frame : WaitFrame) (s : Tasks) :
    (portTry p next frame >>= giveWay) s =
      match (s.ports p).takeFront next with
      | some (pkt, port) => .ok (some pkt) (s.setPort p port)
      | none => portBlock p frame s := by
  rw [portBlock_eq]
  cases front : (s.ports p).takeFront next with
  | some r => simp [portTry, giveWay, Prog.bind_apply, front]
  | none =>
    simp only [portTry, Prog.bind_apply, Prog.get_apply, front]
    cases portRegister p frame s <;> rfl

theorem portWait_eq (p : Nat) : portWait p = (portWaitTry p >>= giveWay) := by
  funext s
  have split : (portWaitTry p >>= giveWay) s =
      (portTry p (Port.advance (s.ports p).head) (.port p) >>= giveWay) s := rfl
  rw [split, portTry_giveWay, portWait, Prog.bind_ok (Prog.get_apply s)]
  cases (s.ports p).takeFront (Port.advance (s.ports p).head) with
  | some r => rfl
  | none => rfl

theorem portWaitWithTimeout_eq (p timeoutMs : Nat) :
    portWaitWithTimeout p timeoutMs = (portWaitWithTimeoutTry p timeoutMs >>= giveWay) := by
  funext s
  have split : (portWaitWithTimeoutTry p timeoutMs >>= giveWay) s =
      (portTry p (Port.advance (s.ports p).tail)
        (.portWithTimeout p (s.portDeadline timeoutMs)) >>= giveWay) s := rfl
  rw [split, portTry_giveWay, portWaitWithTimeout, Prog.bind_ok (Prog.get_apply s)]
  cases (s.ports p).takeFront (Port.advance (s.ports p).tail) with
  | some r => rfl
  | none => rfl

end Tasks

end CapsuleOS
