import CapsuleOS.Task.Tasks

/-!
# What the calls do to the scheduler

Apart from births, deaths and the two calls that make a thread ready by its state alone, a call on
`Tasks` only schedules, wakes threads that sleep and writes to the running thread. A relation that
these steps keep is kept by every such call.
-/
namespace CapsuleOS

open Lib

/-- A write that leaves a thread what it is and does not kill it. -/
structure Tcb.GoesOn (t t' : Tcb) : Prop where
  id_eq : t'.id = t.id
  processId_eq : t'.processId = t.processId
  alive : t.state ≠ .dead → t'.state ≠ .dead

/-- The relation holds of what the calls do to the scheduler. -/
structure Scheduler.Covers (R : Scheduler → Scheduler → Prop) : Prop where
  schedule : Prog.Within R Scheduler.schedule
  run : Prog.Within R Scheduler.run
  wakeThread : ∀ s tid, R s (s.wakeThread tid)
  write : ∀ s i f, s.currentIdx = some i → (∀ t, Tcb.GoesOn t (f t)) → R s (s.modifyAt i f)

/-- The relation between the schedulers of two states. -/
def Tasks.Rel (R : Scheduler → Scheduler → Prop) (s s' : Tasks) : Prop := R s.sched s'.sched

/-- The operations that bring no birth, death or revival. -/
def TaskOp.Plain : TaskOp → Bool
  | .add _ => false
  | .die => false
  | .portQueue _ _ => false
  | .threadStart _ => false
  | _ => true

section Covers

variable {R : Scheduler → Scheduler → Prop}

instance [Std.Refl R] : Std.Refl (Tasks.Rel R) := ⟨fun s => Std.Refl.refl s.sched⟩

instance [IsTrans Scheduler R] : IsTrans Tasks (Tasks.Rel R) :=
  ⟨fun s t u h h' => IsTrans.trans (r := R) s.sched t.sched u.sched h h'⟩

namespace Tasks

theorem onSched_within {α : Type} {m : SchedM α} (h : Prog.Within R m) : Prog.Within (Rel R) (onSched m) :=
  h.zoom fun _ _ rel => rel

theorem modifySched_within {f : Scheduler → Scheduler} (h : ∀ s, R s (f s)) :
    Prog.Within (Rel R) (modifySched f) := Prog.Within.modify fun s => h s.sched

end Tasks

variable [Std.Refl R]

/-- A change outside the scheduler. -/
theorem Tasks.modify_within {f : Tasks → Tasks} (h : ∀ s, (f s).sched = s.sched) :
    Prog.Within (Rel R) (Prog.modify f : TaskM Unit) := Prog.Within.modify fun s => by
  unfold Rel
  rw [h]
  exact Std.Refl.refl s.sched

theorem Tasks.currentThread_within : Prog.Within (Rel R) currentThread := by
  intro s
  unfold currentThread
  split <;> exact Std.Refl.refl s

theorem Tasks.futexRest_within [IsTrans Scheduler R] (addr : Nat) : Prog.Within (Rel R) (futexRest addr) := by
  refine currentThread_within.bind fun t => Prog.Within.get.bind fun s => ?_
  split
  · exact modify_within (by intro; rfl)
  · exact Prog.Within.fault

namespace Scheduler.Covers

variable (c : Covers R)

include c

theorem setCurrentState (s : Scheduler) {state : ThreadState} (live : state ≠ .dead) :
    R s (s.setCurrentState state) := by
  unfold Scheduler.setCurrentState
  cases cur : s.currentIdx with
  | none => exact Std.Refl.refl s
  | some i => exact c.write s i _ cur fun t => ⟨rfl, rfl, fun _ => live⟩

theorem giveUp (s : Scheduler) : R s (Tasks.giveUp s) := by
  unfold Tasks.giveUp
  cases cur : s.currentIdx with
  | none => exact Std.Refl.refl s
  | some i =>
    refine c.write s i _ cur fun t => ?_
    split_ifs
    · exact ⟨rfl, rfl, fun _ dead => by cases dead⟩
    · exact ⟨rfl, rfl, id⟩

theorem modifyCurrent {f : Tcb → Tcb} (goes : ∀ t, Tcb.GoesOn t (f t)) :
    Prog.Within (Tasks.Rel R) (Tasks.modifyCurrent f) := by
  refine Tasks.modifySched_within fun s => ?_
  cases cur : s.currentIdx with
  | none => exact Std.Refl.refl s
  | some i => exact c.write s i f cur goes

variable [IsTrans Scheduler R]

theorem block : Prog.Within R Scheduler.block := fun s =>
  IsTrans.trans _ _ _ (c.setCurrentState s (by decide)) (c.schedule _)

theorem takePacket : Prog.Within (Tasks.Rel R) Tasks.takePacket := by
  refine Tasks.currentThread_within.bind fun t => ?_
  refine (c.modifyCurrent (by intro; exact ⟨rfl, rfl, id⟩)).bind fun _ => ?_
  split
  · exact Prog.Within.pure _
  · exact Prog.Within.throw _

theorem portTimeoutRest (p : Nat) (deadline : Option Nat) :
    Prog.Within (Tasks.Rel R) (Tasks.portTimeoutRest p deadline) := by
  refine Prog.Within.get.bind fun s => ?_
  split_ifs
  · refine (Tasks.modify_within (by intro; rfl)).bind fun _ => ?_
    exact (Tasks.modifySched_within c.giveUp).bind fun _ => Prog.Within.throw _
  · exact c.takePacket

theorem resume : Prog.Within (Tasks.Rel R) Tasks.resume := by
  refine Tasks.currentThread_within.bind fun t => ?_
  refine (c.modifyCurrent (by intro; exact ⟨rfl, rfl, id⟩)).bind fun _ => ?_
  split
  · exact Prog.Within.pure _
  · exact c.takePacket.bind fun _ => Prog.Within.pure _
  · exact (c.portTimeoutRest _ _).bind fun _ => Prog.Within.pure _
  · exact Tasks.futexRest_within _

theorem portBlock (p : Nat) (frame : WaitFrame) :
    Prog.Within (Tasks.Rel R) (Tasks.portBlock p frame) := by
  refine Tasks.currentThread_within.bind fun t => ?_
  refine (c.modifyCurrent (by intro; exact ⟨rfl, rfl, id⟩)).bind fun _ => ?_
  refine (Tasks.modify_within (by intro; rfl)).bind fun _ => ?_
  exact (Tasks.onSched_within c.block).bind fun _ => Prog.Within.pure _

theorem portWait (p : Nat) : Prog.Within (Tasks.Rel R) (Tasks.portWait p) := by
  refine Prog.Within.get.bind fun s => ?_
  split
  · exact (Tasks.modify_within (by intro; rfl)).bind fun _ => Prog.Within.pure _
  · exact c.portBlock p _

theorem portWaitWithTimeout (p ms : Nat) :
    Prog.Within (Tasks.Rel R) (Tasks.portWaitWithTimeout p ms) := by
  refine Prog.Within.get.bind fun s => ?_
  split
  · exact (Tasks.modify_within (by intro; rfl)).bind fun _ => Prog.Within.pure _
  · exact c.portBlock p _

theorem futexWait (addr expected value : Nat) :
    Prog.Within (Tasks.Rel R) (Tasks.futexWait addr expected value) := by
  unfold Tasks.futexWait
  split_ifs
  · exact Prog.Within.pure _
  refine Tasks.currentThread_within.bind fun t => Prog.Within.get.bind fun s => ?_
  split
  · exact (Tasks.modify_within (by intro; rfl)).bind fun _ => Prog.Within.throw _
  · refine (Tasks.modify_within (by intro; rfl)).bind fun _ => ?_
    refine (c.modifyCurrent (by intro; exact ⟨rfl, rfl, id⟩)).bind fun _ => ?_
    exact Tasks.onSched_within c.block

theorem wakeAll (s : Scheduler) (tids : List Nat) : R s (Tasks.wakeAll s tids) := by
  induction tids generalizing s with
  | nil => exact Std.Refl.refl s
  | cons tid tids ih => exact IsTrans.trans _ _ _ (c.wakeThread s tid) (ih _)

theorem futexWake (addr count : Nat) : Prog.Within (Tasks.Rel R) (Tasks.futexWake addr count) := by
  refine Prog.Within.get.bind fun s => ?_
  split
  · exact Prog.Within.pure _
  split_ifs
  · exact Prog.Within.pure _
  refine (Tasks.modify_within (by intro; rfl)).bind fun _ => ?_
  exact (Tasks.modifySched_within fun s => c.wakeAll s _).bind fun _ => Prog.Within.pure _

theorem exec {op : TaskOp} (plain : op.Plain = true) : Prog.Within (Tasks.Rel R) op.exec := by
  cases op with
  | add | die | portQueue | threadStart => cases plain
  | run => exact Tasks.onSched_within c.run
  | tick =>
    exact (Tasks.modify_within (by intro; rfl)).bind fun _ => Tasks.onSched_within c.schedule
  | yield => exact Tasks.onSched_within c.schedule
  | channelBlock => exact Tasks.onSched_within c.block
  | channelFull => exact Tasks.modifySched_within fun s => c.setCurrentState s (by decide)
  | channelGiveUp => exact Tasks.modifySched_within c.giveUp
  | channelWake tid => exact Tasks.modifySched_within fun s => c.wakeThread s tid
  | portWait p => exact (c.portWait p).bind fun _ => Prog.Within.pure _
  | portWaitWithTimeout p ms => exact (c.portWaitWithTimeout p ms).bind fun _ => Prog.Within.pure _
  | futexWait addr expected value => exact c.futexWait addr expected value
  | futexWake addr count => exact (c.futexWake addr count).bind fun _ => Prog.Within.pure _
  | futexRequeue addr count newAddr => exact (c.futexWake addr count).bind fun _ => Prog.Within.pure _
  | resume => exact c.resume

end Scheduler.Covers

end Covers

end CapsuleOS
