import CapsuleOS.Task.Effects
import CapsuleOS.Task.PortCalls
import CapsuleOS.Task.TaskRuns

/-!
# Giving way

Whatever a call on `Tasks` does to threads and queues, it does before it gives way, and it gives way at most
once. So what is known of writes, wake-ups and births, and of a single call of `schedule`, is known of
every call.
-/
namespace CapsuleOS

open Lib

/-- A write to the state of a thread, or to what a call that waits keeps in it. -/
structure Tcb.Marked (t t' : Tcb) : Prop where
  id_eq : t'.id = t.id
  processId_eq : t'.processId = t.processId
  priority_eq : t'.priority = t.priority
  timeSlice_eq : t'.timeSlice = t.timeSlice
  remainingTicks_eq : t'.remainingTicks = t.remainingTicks

namespace Scheduler

/-- The relation holds of births, of writes and of entries in the queues. -/
structure Absorbs (R : Scheduler → Scheduler → Prop) : Prop where
  add : ∀ s s' thread, (add thread s).Ends s' → R s s'
  write : ∀ s i f, (∀ t, Tcb.Marked t (f t)) → R s (s.modifyAt i f)
  requeue : ∀ s i, R s (s.requeueCurrent i)

/-- A call of `schedule`, the first start, or nothing. -/
inductive GivesWay (s : Scheduler) : Scheduler → Prop where
  | stays : GivesWay s s
  | schedules {s' : Scheduler} (ran : (schedule s).Ends s') : GivesWay s s'
  | starts {s' : Scheduler} (ran : (run s).Ends s') : GivesWay s s'

end Scheduler

namespace Tasks

variable {α β : Type} {R : Scheduler → Scheduler → Prop}

/-- Every way in which the call returns is a part within `R` that ends by giving way, or not. -/
def Splits (R : Scheduler → Scheduler → Prop) (m : TaskM α) : Prop := ∀ s s', (m s).Ends s' →
  ∃ u, R s.sched u ∧ u.GivesWay s'.sched

theorem Splits.of_within {m : TaskM α} (h : Prog.Within (Rel R) m) : Splits R m := by
  intro s s' ran
  have rel := h s
  rw [ran.state_eq] at rel
  exact ⟨_, rel, .stays⟩

theorem Splits.bind [IsTrans Scheduler R] {m : TaskM α} {f : α → TaskM β}
    (hm : Prog.Within (Rel R) m) (hf : ∀ a, Splits R (f a)) : Splits R (m >>= f) := by
  intro s s' ran
  have rel := hm s
  rcases Prog.bind_ends ran with ⟨e, err⟩ | ⟨a, s₁, ok, rest⟩
  · rw [err] at rel
    exact ⟨_, rel, .stays⟩
  · rw [ok] at rel
    obtain ⟨u, rel', gives⟩ := hf a s₁ s' rest
    exact ⟨u, IsTrans.trans (r := R) _ _ _ rel rel', gives⟩

theorem Splits.map {m : TaskM α} {g : α → β} (hm : Splits R m) : Splits R (m >>= fun a => pure (g a)) :=
  fun s s' ran => hm s s' (Prog.map_ends ran)

/-- A call takes a packet within `R`, or registers, which writes to the running thread. -/
theorem portTry_within [Std.Refl R] [IsTrans Scheduler R]
    (marks : ∀ frame, Prog.Within (Rel R) (modifyCurrent (Tcb.registered frame))) (p : Nat)
    (next : Fin portQueueMax) (frame : WaitFrame) : Prog.Within (Rel R) (portTry p next frame) := by
  refine Prog.Within.get.bind fun s => ?_
  split
  · exact (modify_within (by intro; rfl)).bind fun _ => .pure _
  · have register : Prog.Within (Rel R) (portRegister p frame) :=
      currentThread_within.bind fun t => (marks frame).bind fun _ => modify_within (by intro; rfl)
    exact register.bind fun _ => .pure none

/-- The scheduler is changed within `R`, and `schedule` is called. -/
theorem Splits.leave {f : Scheduler → Scheduler} (h : ∀ s, R s (f s)) :
    Splits R (onSched fun s => Scheduler.schedule (f s)) :=
  fun s _ ran => ⟨f s.sched, h s.sched, .schedules (onSched_ends ran)⟩

theorem giveWay_splits [Std.Refl R] (packet : Option PortPacket) : Splits R (giveWay packet) := by
  cases packet with
  | some pkt => exact .of_within (.pure _)
  | none => exact (Splits.leave Std.Refl.refl).map

end Tasks

namespace Scheduler.Absorbs

open Tasks

variable {R : Scheduler → Scheduler → Prop} [Std.Refl R]

section Writes

variable (a : Absorbs R)

include a

theorem setCurrentState (s : Scheduler) (state : ThreadState) : R s (s.setCurrentState state) := by
  unfold Scheduler.setCurrentState
  split
  · exact a.write s _ _ fun t => ⟨rfl, rfl, rfl, rfl, rfl⟩
  · exact Std.Refl.refl s

theorem giveUp (s : Scheduler) : R s (Tasks.giveUp s) := by
  unfold Tasks.giveUp
  split
  · refine a.write s _ _ fun t => ?_
    split_ifs <;> exact ⟨rfl, rfl, rfl, rfl, rfl⟩
  · exact Std.Refl.refl s

theorem modifyCurrent {f : Tcb → Tcb} (marked : ∀ t, Tcb.Marked t (f t)) :
    Prog.Within (Rel R) (Tasks.modifyCurrent f) := by
  refine modifySched_within fun s => ?_
  split
  · exact a.write s _ f marked
  · exact Std.Refl.refl s

theorem threadStart (tid : Nat) : Prog.Within R (Scheduler.threadStart tid) := by
  intro s
  unfold Scheduler.threadStart Scheduler.setThreadState
  cases s.slotOf tid with
  | none => exact Std.Refl.refl s
  | some i => exact a.write s i _ fun t => ⟨rfl, rfl, rfl, rfl, rfl⟩

variable [IsTrans Scheduler R]

theorem wakeThread (s : Scheduler) (tid : Nat) : R s (s.wakeThread tid) := by
  unfold Scheduler.wakeThread
  split
  · refine IsTrans.trans _ _ _ (a.write s _ (·.withState .ready) fun t => ?_) (a.requeue _ _)
    exact ⟨rfl, rfl, rfl, rfl, rfl⟩
  · exact Std.Refl.refl s

theorem wakeAll (s : Scheduler) (tids : List Nat) : R s (Tasks.wakeAll s tids) := by
  induction tids generalizing s with
  | nil => exact Std.Refl.refl s
  | cons tid tids ih => exact IsTrans.trans _ _ _ (a.wakeThread s tid) (ih _)

/-! ### Calls that do not give way -/

theorem takePacket : Prog.Within (Rel R) Tasks.takePacket := by
  refine currentThread_within.bind fun t => ?_
  refine (a.modifyCurrent (by intro; exact ⟨rfl, rfl, rfl, rfl, rfl⟩)).bind fun _ => ?_
  split
  · exact .pure _
  · exact .throw _

theorem portTimeoutRest (p : Nat) (deadline : Option Nat) :
    Prog.Within (Rel R) (Tasks.portTimeoutRest p deadline) := by
  refine Prog.Within.get.bind fun s => ?_
  split_ifs
  · refine (modify_within (by intro; rfl)).bind fun _ => ?_
    exact (modifySched_within a.giveUp).bind fun _ => .throw _
  · exact a.takePacket

theorem resume : Prog.Within (Rel R) Tasks.resume := by
  refine currentThread_within.bind fun t => ?_
  refine (a.modifyCurrent (by intro; exact ⟨rfl, rfl, rfl, rfl, rfl⟩)).bind fun _ => ?_
  split
  · exact .pure _
  · exact a.takePacket.bind fun _ => .pure _
  · exact (a.portTimeoutRest _ _).bind fun _ => .pure _
  · exact futexRest_within _

theorem portQueue (p : Nat) (packet : PortPacket) : Prog.Within (Rel R) (Tasks.portQueue p packet) := by
  refine Prog.Within.get.bind fun s => (modify_within (by intro; rfl)).bind fun _ => ?_
  split
  · exact modifySched_within fun s => a.write s _ _ fun t => ⟨rfl, rfl, rfl, rfl, rfl⟩
  · split
    · exact modify_within (by intro; rfl)
    · exact .throw _

theorem futexWake (addr count : Nat) : Prog.Within (Rel R) (Tasks.futexWake addr count) := by
  refine Prog.Within.get.bind fun s => ?_
  split
  · exact .pure _
  · split_ifs
    · exact .pure _
    · refine (modify_within (by intro; rfl)).bind fun _ => ?_
      exact (modifySched_within fun s => a.wakeAll s _).bind fun _ => .pure _

/-! ### Calls that may -/

theorem portTry (p : Nat) (next : Fin portQueueMax) (frame : WaitFrame) :
    Prog.Within (Rel R) (Tasks.portTry p next frame) :=
  portTry_within (fun _ => a.modifyCurrent fun _ => ⟨rfl, rfl, rfl, rfl, rfl⟩) p next frame

theorem portWait (p : Nat) : Splits R (Tasks.portWait p) := by
  rw [portWait_eq]
  exact .bind (Prog.Within.get.bind fun _ => a.portTry _ _ _) giveWay_splits

theorem portWaitWithTimeout (p ms : Nat) : Splits R (Tasks.portWaitWithTimeout p ms) := by
  rw [portWaitWithTimeout_eq]
  exact .bind (Prog.Within.get.bind fun _ => a.portTry _ _ _) giveWay_splits

theorem futexWait (addr expected value : Nat) : Splits R (Tasks.futexWait addr expected value) := by
  unfold Tasks.futexWait
  split_ifs
  · exact .of_within (.pure _)
  refine .bind currentThread_within fun t => .bind Prog.Within.get fun s => ?_
  split
  · exact .of_within ((modify_within (by intro; rfl)).bind fun _ => .throw _)
  · refine .bind (modify_within (by intro; rfl)) fun _ => ?_
    refine .bind (a.modifyCurrent (by intro; exact ⟨rfl, rfl, rfl, rfl, rfl⟩)) fun _ => ?_
    exact .leave fun s => a.setCurrentState s .blocked

theorem exec (op : TaskOp) : Splits R op.exec := by
  cases op with
  | add thread => exact fun s s' ran => ⟨_, a.add _ _ thread (onSched_ends ran), .stays⟩
  | run => exact fun s s' ran => ⟨_, Std.Refl.refl _, .starts (onSched_ends ran)⟩
  | tick => exact .bind (modify_within (by intro; rfl)) fun _ => .leave Std.Refl.refl
  | yield => exact .leave Std.Refl.refl
  | channelBlock => exact .leave fun s => a.setCurrentState s .blocked
  | channelFull => exact .of_within (modifySched_within fun s => a.setCurrentState s .running)
  | channelGiveUp => exact .of_within (modifySched_within a.giveUp)
  | channelWake tid => exact .of_within (modifySched_within fun s => a.wakeThread s tid)
  | portWait p => exact (a.portWait p).map
  | portWaitWithTimeout p ms => exact (a.portWaitWithTimeout p ms).map
  | portQueue p packet => exact .of_within (a.portQueue p packet)
  | futexWait addr expected value => exact a.futexWait addr expected value
  | futexWake addr count => exact .of_within ((a.futexWake addr count).bind fun _ => .pure _)
  | futexRequeue addr count _ => exact .of_within ((a.futexWake addr count).bind fun _ => .pure _)
  | resume => exact .of_within a.resume
  | threadStart tid => exact .of_within (onSched_within (a.threadStart tid))
  | die => exact .leave fun s => a.setCurrentState s .dead

end Writes

end Scheduler.Absorbs

end CapsuleOS
