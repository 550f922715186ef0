import CapsuleOS.Lib.Runs
import CapsuleOS.Sync.FutexLists
import CapsuleOS.Task.PortCalls
import CapsuleOS.Task.ReadyQueues

/-!
# Threads in a futex call

What the scheduler, the channels and the ports do to the threads that wait in `Futex::wait`: nothing,
except that they may make such a thread run. `KeepsCalls` says so, and each routine that does not belong
to the futexes is shown to stay within it.
-/
namespace CapsuleOS

open Lib

/-- The address the thread waits on in `Futex::wait`. -/
def Tcb.futexCall (t : Tcb) : Option Nat :=
  match t.waiting with
  | some (.futex addr) => some addr
  | _ => none

/-- Still in the same futex call, and not put to sleep in it. -/
structure Tcb.SameCall (t t' : Tcb) : Prop where
  id_eq : t'.id = t.id
  call_eq : t'.futexCall = t.futexCall
  asleep : t'.futexCall ≠ none → t'.state = .blocked → t.state = .blocked

namespace Tcb.SameCall

theorem refl (t : Tcb) : t.SameCall t := ⟨rfl, rfl, fun _ => id⟩

theorem trans {t u v : Tcb} (h : t.SameCall u) (h' : u.SameCall v) : t.SameCall v where
  id_eq := h'.id_eq.trans h.id_eq
  call_eq := h'.call_eq.trans h.call_eq
  asleep call blocked := h.asleep (h'.call_eq ▸ call) (h'.asleep call blocked)

theorem withState (t : Tcb) {st : ThreadState} (awake : st ≠ .blocked) : t.SameCall (t.withState st) :=
  ⟨rfl, rfl, fun _ blocked => absurd blocked awake⟩

/-- A thread outside of futex calls. -/
theorem outside {t t' : Tcb} (id_eq : t'.id = t.id) (before : t.futexCall = none)
    (after : t'.futexCall = none) : t.SameCall t' :=
  ⟨id_eq, after.trans before.symm, fun call => absurd after call⟩

theorem expire (t : Tcb) : t.SameCall t.expire := by
  have id_eq : t.expire.id = t.id := by
    unfold Tcb.expire Tcb.decayPriority Tcb.resetTimeSlice
    by_cases running : t.state = .running <;> simp [running] <;> split <;> simp
  have waiting : t.expire.waiting = t.waiting := by
    unfold Tcb.expire Tcb.decayPriority Tcb.resetTimeSlice Tcb.withState
    by_cases running : t.state = .running <;> simp [running] <;> split <;> simp
  refine ⟨id_eq, by simp only [futexCall, waiting], fun _ blocked => ?_⟩
  rw [Tcb.expire_state] at blocked
  split_ifs at blocked
  exact blocked

theorem activate (t : Tcb) : t.SameCall t.activate := ⟨rfl, rfl, fun _ blocked => by cases blocked⟩

end Tcb.SameCall

namespace Scheduler

/-- Write through the pointer to the running thread. -/
def onCurrent (s : Scheduler) (f : Tcb → Tcb) : Scheduler :=
  match s.currentIdx with
  | some i => s.modifyAt i f
  | none => s

/-- The same threads, each in the same futex call. -/
structure KeepsCalls (s s' : Scheduler) : Prop where
  kept : ∀ i t, s.threads i = some t → ∃ t', s'.threads i = some t' ∧ t.SameCall t'
  old : ∀ i t', s'.threads i = some t' → ∃ t, s.threads i = some t ∧ t.SameCall t'

namespace KeepsCalls

variable {s s' s'' : Scheduler} {i : Fin maxThreads} {f : Tcb → Tcb}

theorem of_threads (same : s'.threads = s.threads) : s.KeepsCalls s' where
  kept i t thread := ⟨t, by rw [same, thread], .refl t⟩
  old i t thread := ⟨t, by rw [← same, thread], .refl t⟩

theorem refl (s : Scheduler) : s.KeepsCalls s := of_threads rfl

theorem trans (h : s.KeepsCalls s') (h' : s'.KeepsCalls s'') : s.KeepsCalls s'' where
  kept i t thread := by
    obtain ⟨u, at_i, same⟩ := h.kept i t thread
    obtain ⟨v, at_i', same'⟩ := h'.kept i u at_i
    exact ⟨v, at_i', same.trans same'⟩
  old i v thread := by
    obtain ⟨u, at_i, same'⟩ := h'.old i v thread
    obtain ⟨t, at_i', same⟩ := h.old i u at_i
    exact ⟨t, at_i', same.trans same'⟩

theorem modifyAt (h : ∀ t, s.threads i = some t → t.SameCall (f t)) : s.KeepsCalls (s.modifyAt i f) where
  kept j t thread := by
    by_cases here : j = i
    · subst here
      exact ⟨f t, by rw [modifyAt_threads, if_pos rfl, thread]; rfl, h t thread⟩
    · exact ⟨t, by rw [modifyAt_threads, if_neg here, thread], .refl t⟩
  old j t' thread := by
    rw [modifyAt_threads] at thread
    split_ifs at thread with here
    · obtain ⟨t, at_i, rfl⟩ := Option.map_eq_some_iff.mp thread
      exact ⟨t, here ▸ at_i, h t (here ▸ at_i)⟩
    · exact ⟨t', thread, .refl t'⟩

theorem onCurrent (h : ∀ t, s.getCurrentThread = some t → t.SameCall (f t)) :
    s.KeepsCalls (s.onCurrent f) := by
  unfold Scheduler.onCurrent
  cases cur : s.currentIdx with
  | none => exact refl s
  | some i =>
    refine modifyAt fun t thread => h t ?_
    simp [getCurrentThread, cur, thread]

theorem requeueCurrent (s : Scheduler) (i : Fin maxThreads) : s.KeepsCalls (s.requeueCurrent i) := by
  apply of_threads
  unfold Scheduler.requeueCurrent
  split
  · rfl
  · split <;> rfl

theorem wakeThread (s : Scheduler) (tid : Nat) : s.KeepsCalls (s.wakeThread tid) := by
  unfold Scheduler.wakeThread
  split
  · exact (modifyAt fun t _ => .withState t (by decide)).trans (requeueCurrent _ _)
  · exact refl s

theorem popLoop (fuel : Nat) (s : Scheduler) : s.KeepsCalls (Scheduler.popLoop fuel s).2 := by
  induction fuel generalizing s with
  | zero => exact refl s
  | succ fuel ih =>
    unfold Scheduler.popLoop
    cases pop : s.popCandidate with
    | none => exact refl s
    | some r =>
      obtain ⟨i, s₁⟩ := r
      obtain ⟨p, q, _, rfl⟩ := popCandidate_eq_some pop
      have first : s.KeepsCalls (s.setQueue p q) := of_threads rfl
      simp only
      split
      · exact first.trans (ih _)
      · exact first

theorem activate (s : Scheduler) (i : Fin maxThreads) : s.KeepsCalls (s.activate i) := by
  have first : s.KeepsCalls (s.modifyAt i Tcb.activate) := modifyAt fun t _ => .activate t
  exact first.trans (of_threads rfl)

theorem retire (s : Scheduler) (prev : Fin maxThreads) : s.KeepsCalls (s.retire prev) := by
  have first : s.KeepsCalls (s.modifyAt prev Tcb.expire) := modifyAt fun t _ => .expire t
  unfold Scheduler.retire
  simp only
  split
  · split_ifs
    · exact first.trans (requeueCurrent _ _)
    · exact first
  · exact first

theorem selectNext (s : Scheduler) (prev : Fin maxThreads) :
    s.KeepsCalls (Scheduler.selectNext prev s).state := by
  have popped := popLoop maxThreads s
  unfold Scheduler.selectNext popNextFromAllQueues
  cases pop : Scheduler.popLoop maxThreads s with
  | mk next s₁ =>
    rw [pop] at popped
    cases next with
    | none =>
      simp only
      split_ifs
      · exact popped
      · exact popped.trans (of_threads rfl)
    | some i =>
      simp only
      split_ifs
      · exact popped
      · exact popped.trans (activate _ _)

theorem schedule (s : Scheduler) : s.KeepsCalls (Scheduler.schedule s).state := by
  unfold Scheduler.schedule
  split_ifs
  · split
    · exact refl s
    · exact (retire s _).trans (selectNext _ _)
  · exact refl s

theorem run (s : Scheduler) : s.KeepsCalls (Scheduler.run s).state := by
  have started : s.KeepsCalls { s with running := true } := of_threads rfl
  have popped := started.trans (popLoop maxThreads _)
  unfold Scheduler.run popNextFromAllQueues
  cases pop : Scheduler.popLoop maxThreads { s with running := true } with
  | mk next s₁ =>
    rw [pop] at popped
    cases next with
    | none => exact popped
    | some i => exact popped.trans (activate _ _)

theorem setThreadState (s : Scheduler) (tid : Nat) {st : ThreadState} (awake : st ≠ .blocked) :
    s.KeepsCalls (s.setThreadState tid st) := by
  unfold Scheduler.setThreadState
  split
  · exact modifyAt fun t _ => .withState t awake
  · exact refl s

theorem threadStart (s : Scheduler) (tid : Nat) : s.KeepsCalls (Scheduler.threadStart tid s).state := by
  unfold Scheduler.threadStart
  split
  · exact setThreadState s tid (by decide)
  · exact refl s

theorem die (s : Scheduler) : s.KeepsCalls (Scheduler.die s).state := by
  have dead : s.KeepsCalls (s.onCurrent (·.withState .dead)) :=
    onCurrent fun t _ => .withState t (by decide)
  exact dead.trans (schedule _)

/-- A thread outside of futex calls may block. -/
theorem block (h : ∀ t, s.getCurrentThread = some t → t.futexCall = none) :
    s.KeepsCalls (Scheduler.block s).state := by
  have asleep : s.KeepsCalls (s.onCurrent (·.withState .blocked)) :=
    onCurrent fun t cur => .outside rfl (h t cur) (h t cur)
  exact asleep.trans (schedule _)

end KeepsCalls

theorem schedule_noErr : Prog.NoErr schedule := by
  intro s e t ran
  unfold schedule at ran
  split_ifs at ran
  split at ran
  · cases ran
  · unfold selectNext at ran
    split at ran <;> split_ifs at ran

end Scheduler

end CapsuleOS
