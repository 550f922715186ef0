import CapsuleOS.Task.Effects
import CapsuleOS.Task.ReadyQueues

/-!
# Life and death of threads

Seen from a process, a thread is a process id and whether it is dead. `schedule` changes neither,
whatever it selects, and so does no call of `Tasks` but four: a thread is added or dies, and
`Port::queue` and `sys_thread_start` make a thread ready whatever its state was.
-/
namespace CapsuleOS

open Lib

namespace Scheduler

/-- Process id of the thread in a slot, and whether it is dead. -/
def fates (s : Scheduler) (i : Fin maxThreads) : Option (Nat × Bool) :=
  (s.threads i).map fun t => (t.processId, t.state == .dead)

/-- The running thread is alive, and nobody runs before the scheduler is started. -/
structure Lively (s : Scheduler) : Prop where
  current : ∀ i, s.currentIdx = some i → ∃ pid, s.fates i = some (pid, false)
  idle : s.running = false → s.currentIdx = none

/-- Nobody is born, dies or is revived. -/
def SameFates (s s' : Scheduler) : Prop := s.Lively → s'.Lively ∧ s'.fates = s.fates

instance : Std.Refl SameFates := ⟨fun _ h => ⟨h, rfl⟩⟩

instance : IsTrans Scheduler SameFates :=
  ⟨fun _ _ _ h h' lively => ⟨(h' (h lively).1).1, (h' (h lively).1).2.trans (h lively).2⟩⟩

variable {s s' : Scheduler}

theorem fates_eq_some {i : Fin maxThreads} {pid : Nat} {dead : Bool} :
    s.fates i = some (pid, dead) ↔
      ∃ t, s.threads i = some t ∧ t.processId = pid ∧ (t.state == .dead) = dead := by
  simp [fates]

theorem fates_of_thread {i : Fin maxThreads} {t : Tcb} (h : s.threads i = some t) :
    s.fates i = some (t.processId, t.state == .dead) := by simp [fates, h]

theorem fates_congr (h : s'.threads = s.threads) : s'.fates = s.fates := by
  funext i
  simp [fates, h]

/-- An update of one slot that keeps the process id and says what becomes of the thread. -/
theorem fates_modifyAt {i : Fin maxThreads} {f : Tcb → Tcb} {t : Tcb} (h : s.threads i = some t)
    (pid : (f t).processId = t.processId) :
    (s.modifyAt i f).fates =
      Function.update s.fates i (some (t.processId, (f t).state == .dead)) := by
  funext j
  rw [fates, modifyAt_threads]
  by_cases eq : j = i
  · subst eq
    simp [h, pid]
  · simp [eq, fates]

theorem modifyAt_of_none {i : Fin maxThreads} {f : Tcb → Tcb} (h : s.threads i = none) :
    s.modifyAt i f = s := by
  have same : Function.update s.threads i none = s.threads := by
    rw [← h]
    exact Function.update_eq_self i s.threads
  simp [modifyAt, setThread, h, same]

/-- A write that leaves the process id and does not bring death or life. -/
theorem fates_modifyAt_same {i : Fin maxThreads} {f : Tcb → Tcb}
    (pid : ∀ t, (f t).processId = t.processId)
    (dead : ∀ t, s.threads i = some t → ((f t).state = .dead ↔ t.state = .dead)) :
    (s.modifyAt i f).fates = s.fates := by
  cases ht : s.threads i with
  | none => rw [modifyAt_of_none ht]
  | some t =>
    have same : ((f t).state == .dead) = (t.state == .dead) := by
      rw [Bool.eq_iff_iff]
      simpa using dead t ht
    rw [fates_modifyAt ht (pid t), same, ← fates_of_thread ht, Function.update_eq_self]

theorem Lively.congr (h : s.Lively) (fates : s'.fates = s.fates)
    (cur : s'.currentIdx = s.currentIdx) (running : s'.running = s.running) : s'.Lively where
  current i hc := by
    rw [fates]
    exact h.current i (cur ▸ hc)
  idle off := by
    rw [cur]
    exact h.idle (running ▸ off)

theorem Lively.alive (h : s.Lively) {i : Fin maxThreads} {t : Tcb} (cur : s.currentIdx = some i)
    (ht : s.threads i = some t) : t.state ≠ .dead := by
  obtain ⟨pid, fate⟩ := h.current i cur
  rw [fates_of_thread ht] at fate
  simp only [Option.some.injEq, Prod.mk.injEq, beq_eq_false_iff_ne] at fate
  exact fate.2

theorem SameFates.of_fates (fates : s'.fates = s.fates) (cur : s'.currentIdx = s.currentIdx)
    (running : s'.running = s.running) : SameFates s s' :=
  fun lively => ⟨lively.congr fates cur running, fates⟩

theorem SameFates.modifyAt {i : Fin maxThreads} {f : Tcb → Tcb}
    (pid : ∀ t, (f t).processId = t.processId)
    (dead : s.Lively → ∀ t, s.threads i = some t → ((f t).state = .dead ↔ t.state = .dead)) :
    SameFates s (s.modifyAt i f) := by
  intro lively
  have fates := fates_modifyAt_same pid (dead lively)
  exact ⟨lively.congr fates rfl rfl, fates⟩

/-! ## The scheduler -/

@[simp] theorem requeueCurrent_currentIdx (s : Scheduler) (i : Fin maxThreads) :
    (s.requeueCurrent i).currentIdx = s.currentIdx := by
  unfold requeueCurrent
  split
  · rfl
  · split <;> rfl

@[simp] theorem requeueCurrent_running (s : Scheduler) (i : Fin maxThreads) :
    (s.requeueCurrent i).running = s.running := by
  unfold requeueCurrent
  split
  · rfl
  · split <;> rfl

theorem requeueCurrent_sameFates (s : Scheduler) (i : Fin maxThreads) :
    SameFates s (s.requeueCurrent i) := .of_fates (fates_congr (by simp)) (by simp) (by simp)

theorem popLoop_frame (fuel : Nat) (s : Scheduler) :
    (popLoop fuel s).2.threads = s.threads ∧ (popLoop fuel s).2.running = s.running ∧
      (popLoop fuel s).2.currentIdx = s.currentIdx := by
  induction fuel generalizing s with
  | zero => exact ⟨rfl, rfl, rfl⟩
  | succ fuel ih =>
    rw [popLoop]
    cases hc : s.popCandidate with
    | none => exact ⟨rfl, rfl, rfl⟩
    | some r =>
      obtain ⟨i, s'⟩ := r
      obtain ⟨p, q, _, rfl⟩ := popCandidate_eq_some hc
      simp only
      split_ifs
      · exact ih _
      · exact ⟨rfl, rfl, rfl⟩

/-- Whatever is selected is alive. -/
theorem popLoop_alive {fuel : Nat} {s : Scheduler} {i : Fin maxThreads}
    (h : (popLoop fuel s).1 = some i) : ∃ t, s.threads i = some t ∧ t.state ≠ .dead := by
  induction fuel generalizing s with
  | zero => cases h
  | succ fuel ih =>
    rw [popLoop] at h
    cases hc : s.popCandidate with
    | none =>
      simp only [hc] at h
      have live := List.find?_some h
      cases ht : s.threads i with
      | none => simp [ht] at live
      | some t => exact ⟨t, rfl, by simpa [ht] using live⟩
    | some r =>
      obtain ⟨j, s'⟩ := r
      obtain ⟨p, q, _, rfl⟩ := popCandidate_eq_some hc
      simp only [hc] at h
      split_ifs at h with dead
      · exact ih (s := s.setQueue p q) h
      · cases h
        cases ht : s.threads i with
        | none => simp [isDead, ht] at dead
        | some t => exact ⟨t, rfl, by simpa [isDead, ht] using dead⟩

theorem activate_fates {i : Fin maxThreads} {t : Tcb} (ht : s.threads i = some t)
    (alive : t.state ≠ .dead) : (s.activate i).fates = s.fates := by
  have step : (s.modifyAt i Tcb.activate).fates = s.fates :=
    fates_modifyAt_same (fun _ => rfl) fun u hu => by
      rw [ht] at hu
      cases hu
      simp [alive]
  exact step

theorem activate_lively {i : Fin maxThreads} {t : Tcb} (ht : s.threads i = some t)
    (alive : t.state ≠ .dead) (started : s.running = true) : (s.activate i).Lively where
  current j cur := by
    cases cur
    rw [activate_fates ht alive, fates_of_thread ht]
    exact ⟨t.processId, by simp [alive]⟩
  idle off := by
    have on : (s.activate i).running = true := started
    rw [off] at on
    cases on

theorem retire_frame (s : Scheduler) (prev : Fin maxThreads) :
    (s.retire prev).fates = s.fates ∧ (s.retire prev).running = s.running ∧
      (s.retire prev).currentIdx = s.currentIdx := by
  have expired : (s.modifyAt prev Tcb.expire).fates = s.fates :=
    fates_modifyAt_same (fun t => t.expire_processId) fun t _ => by
      rw [Tcb.expire_state]
      split_ifs with running
      · simp [running]
      · rfl
  unfold retire
  simp only
  split
  · split_ifs
    · exact ⟨(fates_congr (requeueCurrent_threads _ _)).trans expired, by simp; rfl, by simp⟩
    · exact ⟨expired, rfl, rfl⟩
  · exact ⟨expired, rfl, rfl⟩

/-- What `schedule` does to a thread that may have just died: it keeps every fate, and if it returns,
the running thread is alive. -/
theorem schedule_fates (idle : s.running = false → s.currentIdx = none) :
    (schedule s).state.fates = s.fates ∧ (s.Lively → (schedule s).state.Lively) ∧
      ((schedule s).Ends s' → s'.Lively) := by
  unfold schedule
  split_ifs with running
  · cases cur : s.currentIdx with
    | none =>
      have lively : s.Lively := ⟨fun i hc => absurd hc (by simp [cur]), fun _ => cur⟩
      refine ⟨rfl, id, fun ends => ?_⟩
      cases ends
      exact lively
    | some prev =>
      obtain ⟨fates₁, running₁, cur₁⟩ := retire_frame s prev
      have frame := popLoop_frame maxThreads (s.retire prev)
      have alive := @popLoop_alive maxThreads (s.retire prev)
      simp only [selectNext, popNextFromAllQueues]
      generalize popLoop maxThreads (s.retire prev) = r at frame alive
      obtain ⟨next, s₂⟩ := r
      obtain ⟨threads₂, running₂, cur₂⟩ := frame
      have fates₂ : s₂.fates = s.fates := (fates_congr threads₂).trans fates₁
      have faulted : s.Lively → s₂.Lively := fun lively =>
        lively.congr fates₂ (cur₂.trans cur₁) (running₂.trans running₁)
      cases next with
      | none =>
        have idle₂ : { s₂ with currentIdx := none }.Lively := 
          ⟨fun i hc => (by cases hc), fun _ => rfl⟩
        simp only
        split_ifs
        · exact ⟨fates₂, faulted, fun ends => by cases ends⟩
        · refine ⟨fates₂, fun _ => idle₂, fun ends => ?_⟩
          cases ends
          exact idle₂
      | some i =>
        obtain ⟨t, ht, live⟩ := alive rfl
        have ht₂ : s₂.threads i = some t := threads₂ ▸ ht
        have active := activate_lively ht₂ live (by rw [running₂, running₁, running])
        simp only
        split_ifs
        · exact ⟨fates₂, faulted, fun ends => by cases ends⟩
        · refine ⟨?_, fun _ => active, fun ends => ?_⟩
          · rw [Outcome.state_ok, activate_fates ht₂ live, fates₂]
          · cases ends
            exact active
  · have off : s.running = false := by simpa using running
    have lively : s.Lively := ⟨fun i hc => absurd hc (by simp [idle off]), idle⟩
    refine ⟨rfl, id, fun ends => ?_⟩
    cases ends
    exact lively

theorem schedule_sameFates : Prog.Within SameFates schedule := by
  intro s lively
  have parts := @schedule_fates s s lively.idle
  exact ⟨parts.2.1 lively, parts.1⟩

theorem wakeThread_sameFates (s : Scheduler) (tid : Nat) : SameFates s (s.wakeThread tid) := by
  unfold wakeThread
  split
  case _ i found =>
    have asleep := List.find?_some found
    have woken : SameFates s (s.modifyAt i (·.withState .ready)) := by
      refine .modifyAt (fun _ => rfl) fun _ t ht => ?_
      have awake : t.state ≠ .dead := by
        intro dead
        simp [ht, sleeps, dead, ThreadState.asleep] at asleep
      simp [awake]
    exact IsTrans.trans _ _ _ woken (requeueCurrent_sameFates _ i)
  case _ => exact Std.Refl.refl s

theorem run_sameFates : Prog.Within SameFates run := by
  intro s lively
  have frame := popLoop_frame maxThreads { s with running := true }
  have alive := @popLoop_alive maxThreads { s with running := true }
  simp only [run, popNextFromAllQueues]
  generalize popLoop maxThreads { s with running := true } = r at frame alive
  obtain ⟨next, s₂⟩ := r
  obtain ⟨threads₂, running₂, cur₂⟩ := frame
  have fates₂ : s₂.fates = s.fates := fates_congr threads₂
  cases next with
  | none =>
    refine ⟨⟨fun i hc => ?_, fun off => ?_⟩, fates₂⟩
    · rw [Outcome.state_fault, fates₂]
      exact lively.current i (cur₂ ▸ hc)
    · rw [Outcome.state_fault, running₂] at off
      cases off
  | some i =>
    obtain ⟨t, ht, live⟩ := alive rfl
    have ht₂ : s₂.threads i = some t := threads₂ ▸ ht
    exact ⟨activate_lively ht₂ live running₂, (activate_fates ht₂ live).trans fates₂⟩

theorem sameFates_covers : Covers SameFates where
  schedule := schedule_sameFates
  run := run_sameFates
  wakeThread := wakeThread_sameFates
  write s i f cur goes := .modifyAt (fun t => (goes t).processId_eq) fun lively t ht => by
    have alive := lively.alive cur ht
    simp [alive, (goes t).alive alive]

/-! ## Birth, death and revival -/

theorem add_fates {thread : Tcb} (h : s.Lively) (ran : (add thread s).Ends s') :
    s'.Lively ∧ ∃ i, s.fates i = none ∧
      s'.fates = Function.update s.fates i (some (thread.processId, false)) := by
  unfold add at ran
  cases slot : s.findEmptySlot with
  | none =>
    simp only [slot] at ran
    cases ran
  | some i =>
    have free := findEmptySlot_eq_some slot
    have empty : s.fates i = none := by simp [fates, free]
    simp only [slot] at ran
    cases pushed : (s.queues thread.priority).push i with
    | mk ok q =>
      simp only [pushed] at ran
      cases ok with
      | false => cases ran
      | true =>
        cases ran
        have fates : (s.setThread i (some (thread.withState .ready))).fates =
            Function.update s.fates i (some (thread.processId, false)) := by
          funext j
          by_cases eq : j = i
          · subst eq
            simp [fates, setThread]
          · simp [fates, setThread, eq]
        have fates' := (fates_congr (setQueue_threads _ thread.priority q)).trans fates
        refine ⟨⟨fun j cur => ?_, h.idle⟩, i, empty, fates'⟩
        rw [fates']
        by_cases eq : j = i
        · subst eq
          exact ⟨thread.processId, Function.update_self ..⟩
        · rw [Function.update_of_ne eq]
          exact h.current j cur

/-- A new thread leaves the others where they are. -/
theorem add_frame {thread : Tcb} (ran : (add thread s).Ends s') :
    s'.currentIdx = s.currentIdx ∧ ∀ i t, s.threads i = some t → s'.threads i = some t := by
  unfold add at ran
  cases slot : s.findEmptySlot with
  | none =>
    simp only [slot] at ran
    cases ran
  | some i =>
    have free := findEmptySlot_eq_some slot
    simp only [slot] at ran
    cases pushed : (s.queues thread.priority).push i with
    | mk ok q =>
      simp only [pushed] at ran
      cases ok with
      | false => cases ran
      | true =>
        cases ran
        refine ⟨rfl, fun j t ht => ?_⟩
        rw [setQueue_threads, setThread_threads, if_neg, ht]
        rintro rfl
        rw [free] at ht
        cases ht

/-- The running thread dies. -/
theorem die_fates (h : s.Lively) (ran : (die s).Ends s') :
    s'.Lively ∧ ((s.getCurrentThread = none ∧ s'.fates = s.fates) ∨
      ∃ i t, s.currentIdx = some i ∧ s.threads i = some t ∧
        s'.fates = Function.update s.fates i (some (t.processId, true))) := by
  have parts := @schedule_fates (s.setCurrentState .dead) s' (by
    unfold setCurrentState
    split <;> exact h.idle)
  refine ⟨parts.2.2 ran, ?_⟩
  have fates : s'.fates = (s.setCurrentState .dead).fates := ran.state_eq ▸ parts.1
  rw [fates]
  unfold setCurrentState
  cases cur : s.currentIdx with
  | none => exact Or.inl ⟨by simp [getCurrentThread, cur], rfl⟩
  | some i =>
    simp only
    cases ht : s.threads i with
    | none => exact Or.inl ⟨by simp [getCurrentThread, cur, ht], by rw [modifyAt_of_none ht]⟩
    | some t => exact Or.inr ⟨i, t, rfl, ht, fates_modifyAt ht rfl⟩

/-- A thread is made ready, whatever it was. -/
theorem setReady_fates (h : s.Lively) {i : Fin maxThreads} {f : Tcb → Tcb}
    (pid : ∀ t, (f t).processId = t.processId) (ready : ∀ t, (f t).state = .ready) :
    (s.modifyAt i f).Lively ∧ ((s.modifyAt i f).fates = s.fates ∨
      ∃ t, s.threads i = some t ∧
        (s.modifyAt i f).fates = Function.update s.fates i (some (t.processId, false))) := by
  cases ht : s.threads i with
  | none =>
    rw [modifyAt_of_none ht]
    exact ⟨h, Or.inl rfl⟩
  | some t =>
    have fates : (s.modifyAt i f).fates = Function.update s.fates i (some (t.processId, false)) := by
      rw [fates_modifyAt ht (pid t), ready t]
      rfl
    refine ⟨⟨fun j cur => ?_, h.idle⟩, Or.inr ⟨t, rfl, fates⟩⟩
    rw [fates]
    by_cases eq : j = i
    · subst eq
      exact ⟨t.processId, Function.update_self ..⟩
    · rw [Function.update_of_ne eq]
      exact h.current j cur

end Scheduler

/-! ## Blocking calls -/

namespace Tasks

def SameFates (s s' : Tasks) : Prop := s.sched.SameFates s'.sched

instance : Std.Refl SameFates := ⟨fun s => Std.Refl.refl s.sched⟩

instance : IsTrans Tasks SameFates :=
  ⟨fun s t u h h' => IsTrans.trans (r := Scheduler.SameFates) s.sched t.sched u.sched h h'⟩

theorem onSched_sameFates {α : Type} {m : SchedM α} (h : Prog.Within Scheduler.SameFates m) :
    Prog.Within SameFates (onSched m) := h.zoom fun _ _ rel => rel

end Tasks

namespace TaskOp

open Tasks

theorem exec_sameFates {op : TaskOp} (plain : op.Plain = true) : Prog.Within SameFates op.exec :=
  Scheduler.sameFates_covers.exec plain

/-- The slot of the thread that an operation makes ready by its state alone. -/
def revives (s : Tasks) : TaskOp → Option (Fin maxThreads)
  | .portQueue p _ => (s.ports p).waiter.bind s.sched.slotOf
  | .threadStart tid => s.sched.slotOf tid
  | _ => none

theorem revives_fates {op : TaskOp} {s s' : Tasks}
    (kind : op.Plain = true ∨ (∃ p packet, op = .portQueue p packet) ∨ ∃ tid, op = .threadStart tid)
    (h : s.sched.Lively) (ran : (op.exec s).Ends s') :
    s'.sched.Lively ∧ (s'.sched.fates = s.sched.fates ∨
      ∃ i t, op.revives s = some i ∧ s.sched.threads i = some t ∧
        s'.sched.fates = Function.update s.sched.fates i (some (t.processId, false))) := by
  rcases kind with plain | ⟨p, packet, rfl⟩ | ⟨tid, rfl⟩
  · have rel := exec_sameFates plain s h
    rw [ran.state_eq] at rel
    exact ⟨rel.1, Or.inl rel.2⟩
  · simp only [exec, Tasks.portQueue, Prog.bind_apply, Prog.get_apply, Prog.modify_apply] at ran
    cases target : (s.ports p).waiter.bind s.sched.slotOf with
    | some i =>
      simp only [target, modifySched, Prog.modify_apply] at ran
      cases ran
      have parts := Scheduler.setReady_fates h (i := i)
        (f := fun t => { t with portPacketSlot := some packet, state := .ready }) (fun _ => rfl)
        fun _ => rfl
      refine ⟨parts.1, parts.2.imp id ?_⟩
      rintro ⟨t, ht, fates⟩
      exact ⟨i, t, target, ht, fates⟩
    | none =>
      simp only [target] at ran
      cases added : Port.append { s.ports p with waiter := none } packet with
      | some port =>
        simp only [added] at ran
        cases ran
        exact ⟨h, Or.inl rfl⟩
      | none =>
        simp only [added] at ran
        cases ran
        exact ⟨h, Or.inl rfl⟩
  · have ran : (onSched (Scheduler.threadStart tid) s).Ends s' := ran
    obtain ⟨t, ends, rfl⟩ := Prog.zoom_ends ran
    unfold Scheduler.threadStart at ends
    cases slot : s.sched.slotOf tid with
    | none =>
      simp only [slot] at ends
      cases ends
      exact ⟨h, Or.inl rfl⟩
    | some i =>
      simp only [slot, Scheduler.setThreadState] at ends
      cases ends
      have parts := Scheduler.setReady_fates h (i := i) (f := (·.withState .ready)) (fun _ => rfl)
        fun _ => rfl
      refine ⟨parts.1, parts.2.imp id ?_⟩
      rintro ⟨u, hu, fates⟩
      exact ⟨i, u, slot, hu, fates⟩

end TaskOp

end CapsuleOS
