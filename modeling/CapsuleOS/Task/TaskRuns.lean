import CapsuleOS.Task.ReadyQueues
import CapsuleOS.Task.Tasks

/-!
# Runs of the scheduler

Every sequence of scheduler, channel, port, futex and thread calls keeps the ready queues in order.
Two things are not kept by every call. A thread that blocks or dies while the queues are empty makes
`schedule` fall back to the scan of the thread table, which takes any thread that is not dead. And
`Port::queue` and `sys_thread_start` write the state `Ready` without a queue entry.
-/
namespace CapsuleOS

open Lib

/-- What one step keeps: the order always, completeness if `calm`, runnable selections if `fair`. -/
structure Passes (calm fair : Prop) (s s' : Scheduler) : Prop where
  orderly : s'.Orderly
  awake : s'.Awake
  complete : calm → s.Complete → s'.Complete
  dropped_eq : s'.dropped = s.dropped
  runnable : fair → s.RunsRunnable → s'.RunsRunnable

namespace Passes

variable {calm fair : Prop} {s s₁ s' : Scheduler}

theorem refl (h : s.Orderly) (awake : s.Awake) : Passes calm fair s s :=
  ⟨h, awake, fun _ full => full, rfl, fun _ past => past⟩

theorem trans (h : Passes calm fair s s₁) (h' : Passes calm fair s₁ s') : Passes calm fair s s' where
  orderly := h'.orderly
  awake := h'.awake
  complete c full := h'.complete c (h.complete c full)
  dropped_eq := h'.dropped_eq.trans h.dropped_eq
  runnable f past := h'.runnable f (h.runnable f past)

theorem of_advances (h : s.Advances s') (same : s'.selections = s.selections) :
    Passes calm fair s s' where
  orderly := h.orderly
  awake := h.awake
  complete _ := h.complete
  dropped_eq := h.dropped_eq
  runnable _ past st mem := past st (same ▸ mem)

end Passes

namespace Scheduler

variable {calm fair : Prop} {s s' : Scheduler}

@[simp] theorem requeueCurrent_selections (s : Scheduler) (i : Fin maxThreads) :
    (s.requeueCurrent i).selections = s.selections := by
  unfold requeueCurrent
  split
  · rfl
  · split <;> rfl

@[simp] theorem wakeThread_selections (s : Scheduler) (tid : Nat) :
    (s.wakeThread tid).selections = s.selections := by
  unfold wakeThread
  split
  · rw [requeueCurrent_selections]
    rfl
  · rfl

theorem wakeThread_passes (h : s.Orderly) (awake : s.Awake) (tid : Nat) :
    Passes calm fair s (s.wakeThread tid) :=
  .of_advances (wakeThread_advances h awake tid) (s.wakeThread_selections tid)

theorem wakeAll_passes (h : s.Orderly) (awake : s.Awake) (tids : List Nat) :
    Passes calm fair s (Tasks.wakeAll s tids) := by
  induction tids generalizing s with
  | nil => exact .refl h awake
  | cons tid tids ih =>
    have first : Passes calm fair s (s.wakeThread tid) := wakeThread_passes h awake tid
    exact first.trans (ih first.orderly first.awake)

theorem add_passes (h : s.Orderly) (awake : s.Awake) {thread : Tcb} (ran : (add thread s).Ends s') :
    Passes calm fair s s' := by
  cases slot : s.findEmptySlot with
  | none =>
    simp only [add, slot] at ran
    cases ran
  | some i =>
    have ok := add_eq h slot thread
    rw [ok] at ran
    cases ran
    exact .of_advances (add_advances h awake ok) rfl

/-- A call of `schedule` by a thread that can go on, or with somebody to take over. -/
theorem schedule_passes (h : s.Orderly) (relief : fair → s.Relieved ∨ s.Awake)
    (ran : (schedule s).Ends s') : Passes calm fair s s' := by
  have result := schedule_scheduled h
  cases hs : schedule s with
  | ok u t =>
    rw [hs] at ran
    cases ran
    have advances := schedule_advances h hs
    exact ⟨advances.orderly, advances.awake, fun _ => advances.complete, advances.dropped_eq,
      fun f past => schedule_runsRunnable h past (relief f) hs⟩
  | err e t =>
    rw [hs] at result
    cases result
  | fault t =>
    rw [hs] at ran
    cases ran

/-- The running thread is given the state `state` and leaves the processor. -/
theorem leave_passes (h : s.Orderly) (awake : s.Awake) {state : ThreadState}
    (relief : fair → (s.setCurrentState state).Relieved)
    (ran : (schedule (s.setCurrentState state)).Ends s') : Passes calm fair s s' := by
  cases cur : s.currentIdx with
  | none =>
    have same : s.setCurrentState state = s := by simp [setCurrentState, cur]
    rw [same] at ran
    exact schedule_passes h (fun _ => Or.inr awake) ran
  | some i =>
    have written : s.setCurrentState state = s.modifyAt i (·.withState state) := by
      simp [setCurrentState, cur]
    rw [written] at relief ran
    have order₁ : (s.modifyAt i (·.withState state)).Orderly :=
      h.modifyAt (fun _ => rfl) fun _ _ => Or.inl cur
    have rest : Passes calm fair _ s' := schedule_passes order₁ (fun f => Or.inl (relief f)) ran
    exact ⟨rest.orderly, rest.awake,
      fun c full => rest.complete c (full.modifyAt (fun _ => rfl) fun _ _ => Or.inl cur),
      rest.dropped_eq, fun f past => rest.runnable f past⟩

/-- Somebody waits in a ready queue. -/
def SomeQueued (s : Scheduler) : Prop := ∃ p, (s.queues p).items ≠ []

theorem block_passes (h : s.Orderly) (awake : s.Awake) (ran : (block s).Ends s') :
    Passes calm s.SomeQueued s s' := by
  refine leave_passes h awake (fun some_queued => Or.inl ?_) ran
  unfold setCurrentState
  split <;> exact some_queued

/-- Somebody waits in a ready queue, or everybody but the running thread is dead. -/
def Replaceable (s : Scheduler) : Prop :=
  s.SomeQueued ∨ ∀ i t, s.threads i = some t → s.currentIdx ≠ some i → t.state = .dead

theorem die_passes (h : s.Orderly) (awake : s.Awake) (ran : (die s).Ends s') :
    Passes calm s.Replaceable s s' := by
  refine leave_passes h awake (fun replaceable => ?_) ran
  unfold setCurrentState
  split
  case _ i cur =>
    rcases replaceable with some_queued | dead
    · exact Or.inl some_queued
    · refine Or.inr fun j t ht => ?_
      rcases modifyAt_inv ht with ⟨_, u, _, rfl⟩ | ⟨ne, old⟩
      · rfl
      · refine dead j t old fun eq => ne ?_
        rw [cur] at eq
        exact (Option.some.inj eq).symm
  case _ cur =>
    rcases replaceable with some_queued | dead
    · exact Or.inl some_queued
    · exact Or.inr fun j t ht => dead j t ht (by simp [cur])

/-- Making a thread ready by its state alone. -/
theorem setReady_passes (h : s.Orderly) (awake : s.Awake) {i : Fin maxThreads} {f : Tcb → Tcb}
    (prio : ∀ t, (f t).priority = t.priority) (ready : ∀ t, (f t).state = .ready) :
    Passes (∀ t, s.threads i = some t → t.state = .ready ∨ t.state = .running) fair s
      (s.modifyAt i f) :=
  have parts := setReady_advances h awake prio ready
  ⟨parts.1, parts.2.1, parts.2.2, rfl, fun _ past => past⟩

end Scheduler

/-! ## Calls -/

namespace Tasks

variable {calm fair : Prop} {s s' : Tasks}

theorem onSched_ends {α : Type} {m : SchedM α} (ran : (onSched m s).Ends s') :
    (m s.sched).Ends s'.sched := by
  obtain ⟨t, ends, rfl⟩ := Prog.zoom_ends ran
  exact ends

theorem currentThread_inv {α : Type} {f : Tcb → TaskM α} (ran : ((currentThread >>= f) s).Ends s') :
    s' = s ∨ ∃ t, s.sched.getCurrentThread = some t ∧ (f t s).Ends s' := by
  simp only [Prog.bind_apply, currentThread] at ran
  cases cur : s.sched.getCurrentThread with
  | none =>
    simp only [cur] at ran
    cases ran
    exact Or.inl rfl
  | some t =>
    simp only [cur] at ran
    exact Or.inr ⟨t, rfl, ran⟩

/-- A write to the running thread that changes neither state nor priority, and what follows it. -/
theorem modifyCurrent_inv {α : Type} {f : Tcb → Tcb} {g : Unit → TaskM α} (h : s.sched.Orderly)
    (awake : s.sched.Awake) (prio : ∀ t, (f t).priority = t.priority)
    (state : ∀ t, (f t).state = t.state) (ran : ((modifyCurrent f >>= g) s).Ends s') :
    ∃ s₁, (∀ calm fair : Prop, Passes calm fair s.sched s₁.sched) ∧
      s₁.sched.queues = s.sched.queues ∧ (g () s₁).Ends s' := by
  rcases Prog.bind_ends ran with ⟨e, bad⟩ | ⟨u, s₁, ok, rest⟩
  · cases bad
  cases ok
  refine ⟨_, fun calm fair => ?_, ?_, rest⟩
  · cases cur : s.sched.currentIdx with
    | none =>
      simp only [cur]
      exact .refl h awake
    | some i =>
      simp only [cur]
      refine .of_advances (Scheduler.current_advances h awake cur prio fun t => ?_) rfl
      exact Or.inr (Or.inr (state t))
  · cases cur : s.sched.currentIdx <;> simp only [cur, Scheduler.modifyAt_queues]

theorem giveUp_passes (h : s.sched.Orderly) (awake : s.sched.Awake) :
    Passes calm fair s.sched (giveUp s.sched) := by
  unfold giveUp
  cases cur : s.sched.currentIdx with
  | none => exact .refl h awake
  | some i =>
    refine .of_advances (Scheduler.current_advances h awake cur (fun t => ?_) fun t => ?_) rfl
    · split <;> rfl
    · split
      · exact Or.inr (Or.inl rfl)
      · exact Or.inr (Or.inr rfl)

theorem setCurrentState_passes (h : s.sched.Orderly) (awake : s.sched.Awake) :
    Passes calm fair s.sched (s.sched.setCurrentState .running) := by
  unfold Scheduler.setCurrentState
  cases cur : s.sched.currentIdx with
  | none => exact .refl h awake
  | some i =>
    exact .of_advances
      (Scheduler.current_advances h awake cur (fun _ => rfl) fun _ => Or.inl rfl) rfl

theorem takePacket_passes (h : s.sched.Orderly) (awake : s.sched.Awake)
    (ran : (takePacket s).Ends s') : Passes calm fair s.sched s'.sched := by
  rcases currentThread_inv ran with rfl | ⟨t, _, rest⟩
  · exact .refl h awake
  · obtain ⟨s₁, write, _, rest⟩ := modifyCurrent_inv (f := fun t => { t with portPacketSlot := none })
      h awake (fun _ => rfl) (fun _ => rfl) rest
    cases hp : t.portPacketSlot with
    | none =>
      simp only [hp] at rest
      cases rest
      exact write _ _
    | some pkt =>
      simp only [hp] at rest
      cases rest
      exact write _ _

theorem portTimeoutRest_passes (h : s.sched.Orderly) (awake : s.sched.Awake) {p : Nat}
    {deadline : Option Nat} (ran : (portTimeoutRest p deadline s).Ends s') :
    Passes calm fair s.sched s'.sched := by
  simp only [portTimeoutRest, Prog.bind_apply, Prog.get_apply] at ran
  split_ifs at ran
  · simp only [Prog.bind_apply, Prog.modify_apply, modifySched, Prog.throw_apply] at ran
    cases ran
    exact giveUp_passes h awake
  · exact takePacket_passes h awake ran

theorem futexRest_passes (h : s.sched.Orderly) (awake : s.sched.Awake) {addr : Nat}
    (ran : (futexRest addr s).Ends s') : Passes calm fair s.sched s'.sched := by
  rcases currentThread_inv ran with rfl | ⟨t, _, rest⟩
  · exact .refl h awake
  · simp only [Prog.bind_apply, Prog.get_apply] at rest
    cases removed : (s.futexes.getOrCreateEntry addr).removeWaiter t.id with
    | some e =>
      simp only [removed] at rest
      cases rest
      exact .refl h awake
    | none =>
      simp only [removed] at rest
      cases rest

/-- The end of a call after the running thread has been switched back to. -/
theorem resume_passes (h : s.sched.Orderly) (awake : s.sched.Awake) (ran : (resume s).Ends s') :
    Passes calm fair s.sched s'.sched := by
  rcases currentThread_inv ran with rfl | ⟨t, _, rest⟩
  · exact .refl h awake
  · obtain ⟨s₁, write, _, rest⟩ := modifyCurrent_inv (f := fun t => { t with waiting := none })
      h awake (fun _ => rfl) (fun _ => rfl) rest
    refine (write _ _).trans ?_
    cases hw : t.waiting with
    | none =>
      simp only [hw] at rest
      cases rest
      exact .refl (write True True).orderly (write True True).awake
    | some frame =>
      cases frame with
      | port p =>
        simp only [hw] at rest
        exact takePacket_passes (write True True).orderly (write True True).awake (Prog.map_ends rest)
      | portWithTimeout p deadline =>
        simp only [hw] at rest
        exact portTimeoutRest_passes (write True True).orderly (write True True).awake (Prog.map_ends rest)
      | futex addr =>
        simp only [hw] at rest
        exact futexRest_passes (write True True).orderly (write True True).awake rest

theorem portBlock_passes (h : s.sched.Orderly) (awake : s.sched.Awake) {p : Nat} {frame : WaitFrame}
    (ran : (portBlock p frame s).Ends s') : Passes calm s.sched.SomeQueued s.sched s'.sched := by
  rcases currentThread_inv ran with rfl | ⟨t, _, rest⟩
  · exact .refl h awake
  obtain ⟨s₁, write, queues, rest⟩ :=
    modifyCurrent_inv (f := fun t => { t with portPacketSlot := none, waiting := some frame })
      h awake (fun _ => rfl) (fun _ => rfl) rest
  refine (write _ _).trans ?_
  have same : s₁.sched.SomeQueued = s.sched.SomeQueued := by
    rw [Scheduler.SomeQueued, Scheduler.SomeQueued, queues]
  rw [← same]
  rcases Prog.bind_ends rest with ⟨e, bad⟩ | ⟨u, s₂, ok, rest⟩
  · cases bad
  cases ok
  have rest := onSched_ends (Prog.map_ends rest)
  exact Scheduler.block_passes (write True True).orderly (write True True).awake rest

theorem portWait_passes (h : s.sched.Orderly) (awake : s.sched.Awake) {p : Nat}
    (ran : (portWait p s).Ends s') :
    Passes calm ((s.ports p).takeFront (Port.advance (s.ports p).head) = none → s.sched.SomeQueued)
      s.sched s'.sched := by
  simp only [portWait, Prog.bind_apply, Prog.get_apply] at ran
  cases front : (s.ports p).takeFront (Port.advance (s.ports p).head) with
  | some r =>
    simp only [front] at ran
    cases ran
    exact .refl h awake
  | none =>
    simp only [front] at ran
    have parts : Passes calm _ s.sched s'.sched := portBlock_passes h awake ran
    exact { parts with runnable := fun fair => parts.runnable (fair rfl) }

theorem portWaitWithTimeout_passes (h : s.sched.Orderly) (awake : s.sched.Awake) {p ms : Nat}
    (ran : (portWaitWithTimeout p ms s).Ends s') :
    Passes calm ((s.ports p).takeFront (Port.advance (s.ports p).tail) = none → s.sched.SomeQueued)
      s.sched s'.sched := by
  simp only [portWaitWithTimeout, Prog.bind_apply, Prog.get_apply] at ran
  cases front : (s.ports p).takeFront (Port.advance (s.ports p).tail) with
  | some r =>
    simp only [front] at ran
    cases ran
    exact .refl h awake
  | none =>
    simp only [front] at ran
    have parts : Passes calm _ s.sched s'.sched := portBlock_passes h awake ran
    exact { parts with runnable := fun fair => parts.runnable (fair rfl) }

theorem portQueue_passes (h : s.sched.Orderly) (awake : s.sched.Awake) {p : Nat} {packet : PortPacket}
    (ran : (portQueue p packet s).Ends s') :
    Passes (∀ i t, (s.ports p).waiter.bind s.sched.slotOf = some i → s.sched.threads i = some t →
      t.state = .ready ∨ t.state = .running) fair s.sched s'.sched := by
  simp only [portQueue, Prog.bind_apply, Prog.get_apply, Prog.modify_apply] at ran
  cases target : (s.ports p).waiter.bind s.sched.slotOf with
  | some i =>
    simp only [target, modifySched, Prog.modify_apply] at ran
    cases ran
    have parts : Passes _ fair s.sched _ := Scheduler.setReady_passes h awake (i := i)
      (f := fun t => { t with portPacketSlot := some packet, state := .ready })
      (fun _ => rfl) fun _ => rfl
    exact { parts with complete := fun calm => parts.complete fun t ht => calm i t rfl ht }
  | none =>
    simp only [target] at ran
    cases added : Port.append { s.ports p with waiter := none } packet with
    | some port =>
      simp only [added] at ran
      cases ran
      exact .refl h awake
    | none =>
      simp only [added] at ran
      cases ran
      exact .refl h awake

theorem futexWait_passes (h : s.sched.Orderly) (awake : s.sched.Awake) {addr expected value : Nat}
    (ran : (futexWait addr expected value s).Ends s') :
    Passes calm (value = expected → ∀ t, s.sched.getCurrentThread = some t →
      ((s.futexes.getOrCreateEntry addr).addWaiter t.id).isSome → s.sched.SomeQueued)
      s.sched s'.sched := by
  unfold futexWait at ran
  split_ifs at ran with differ
  · cases ran
    exact .refl h awake
  rcases currentThread_inv ran with rfl | ⟨t, cur, rest⟩
  · exact .refl h awake
  simp only [Prog.bind_apply, Prog.get_apply] at rest
  cases added : (s.futexes.getOrCreateEntry addr).addWaiter t.id with
  | none =>
    simp only [added] at rest
    cases rest
    exact .refl h awake
  | some e =>
    simp only [added] at rest
    rcases Prog.bind_ends rest with ⟨_, bad⟩ | ⟨u, s₁, ok, rest⟩
    · cases bad
    cases ok
    obtain ⟨s₂, write, queues, rest⟩ :=
      modifyCurrent_inv (f := fun t => { t with waiting := some (.futex addr) })
        (s := { s with futexes := s.futexes.set addr e }) h awake (fun _ => rfl) (fun _ => rfl) rest
    have parts : Passes calm _ s₂.sched s'.sched :=
      Scheduler.block_passes (write True True).orderly (write True True).awake (onSched_ends rest)
    refine (write _ _).trans { parts with runnable := fun fair => parts.runnable ?_ }
    have some_queued := fair (by simpa using differ) t cur (by simp [added])
    rwa [Scheduler.SomeQueued, queues]

theorem futexWake_passes (h : s.sched.Orderly) (awake : s.sched.Awake) {addr count : Nat}
    (ran : (futexWake addr count s).Ends s') : Passes calm fair s.sched s'.sched := by
  simp only [futexWake, Prog.bind_apply, Prog.get_apply] at ran
  cases bucket : s.futexes (FutexTable.hashAddr addr) with
  | none =>
    simp only [bucket] at ran
    cases ran
    exact .refl h awake
  | some e =>
    simp only [bucket] at ran
    split_ifs at ran
    · cases ran
      exact .refl h awake
    · cases ran
      exact Scheduler.wakeAll_passes h awake _

end Tasks

/-! ## Runs -/

namespace TaskOp

/-- A thread that is made ready by its state alone has not been asleep or dead. -/
def Calm (s : Tasks) : TaskOp → Prop
  | .portQueue p _ => ∀ i t, (s.ports p).waiter.bind s.sched.slotOf = some i →
      s.sched.threads i = some t → t.state = .ready ∨ t.state = .running
  | .threadStart tid => ∀ i t, s.sched.slotOf tid = some i →
      s.sched.threads i = some t → t.state = .ready ∨ t.state = .running
  | _ => True

/-- When the running thread is about to block or die, somebody is queued to run instead. -/
def Fair (s : Tasks) : TaskOp → Prop
  | .run => s.sched.Relieved
  | .channelBlock => s.sched.SomeQueued
  | .portWait p => (s.ports p).takeFront (Port.advance (s.ports p).head) = none → s.sched.SomeQueued
  | .portWaitWithTimeout p _ =>
    (s.ports p).takeFront (Port.advance (s.ports p).tail) = none → s.sched.SomeQueued
  | .futexWait addr expected value => value = expected → ∀ t, s.sched.getCurrentThread = some t →
      ((s.futexes.getOrCreateEntry addr).addWaiter t.id).isSome → s.sched.SomeQueued
  | .die => s.sched.Replaceable
  | _ => True

/-- The operation takes `s` to `s'`, returning a value or an error. -/
structure Steps (op : TaskOp) (s s' : Tasks) : Prop where
  enabled : op.Enabled s
  ran : (op.exec s).Ends s'

open Tasks

/-- One step. -/
theorem Steps.passes {op : TaskOp} {s s' : Tasks} (step : op.Steps s s') (h : s.sched.Orderly)
    (awake : s.sched.Awake) : Passes (op.Calm s) (op.Fair s) s.sched s'.sched := by
  have ran := step.ran
  cases op with
  | add thread => exact Scheduler.add_passes h awake (onSched_ends ran)
  | run =>
    have ends := onSched_ends ran
    cases hr : Scheduler.run s.sched with
    | ok u t =>
      rw [hr] at ends
      cases ends
      have parts := Scheduler.run_advances h step.enabled hr
      exact ⟨parts.1.orderly, parts.1.awake, fun _ => parts.1.complete, parts.1.dropped_eq,
        fun fair past => parts.2 past fair⟩
    | err e t =>
      simp only [Scheduler.run] at hr
      split at hr <;> cases hr
    | fault t =>
      rw [hr] at ends
      cases ends
  | tick =>
    rcases Prog.bind_ends ran with ⟨_, bad⟩ | ⟨u, s₁, ok, rest⟩
    · cases bad
    cases ok
    have rest := onSched_ends rest
    exact Scheduler.schedule_passes h (fun _ => Or.inr awake) rest
  | yield => exact Scheduler.schedule_passes h (fun _ => Or.inr awake) (onSched_ends ran)
  | channelBlock => exact Scheduler.block_passes h awake (onSched_ends ran)
  | channelFull =>
    cases ran
    exact setCurrentState_passes h awake
  | channelGiveUp =>
    cases ran
    exact giveUp_passes h awake
  | channelWake tid =>
    cases ran
    exact Scheduler.wakeThread_passes h awake tid
  | portWait p => exact portWait_passes h awake (Prog.map_ends ran)
  | portWaitWithTimeout p ms => exact portWaitWithTimeout_passes h awake (Prog.map_ends ran)
  | portQueue p packet => exact portQueue_passes h awake ran
  | futexWait addr expected value => exact futexWait_passes h awake ran
  | futexWake addr count => exact futexWake_passes h awake (Prog.map_ends ran)
  | futexRequeue addr count newAddr => exact futexWake_passes h awake (Prog.map_ends ran)
  | resume => exact resume_passes h awake ran
  | threadStart tid =>
    have ends := onSched_ends ran
    unfold Scheduler.threadStart at ends
    cases slot : s.sched.slotOf tid with
    | none =>
      simp only [slot] at ends
      generalize s'.sched = t at ends ⊢
      cases ends
      exact .refl h awake
    | some i =>
      simp only [slot, Scheduler.setThreadState] at ends
      generalize s'.sched = t at ends ⊢
      cases ends
      have parts : Passes _ (Fair s (.threadStart tid)) s.sched _ :=
        Scheduler.setReady_passes h awake (i := i) (f := (·.withState .ready)) (fun _ => rfl)
          fun _ => rfl
      exact { parts with complete := fun calm => parts.complete fun t ht => calm i t slot ht }
  | die => exact Scheduler.die_passes h awake (onSched_ends ran)

/-- A run whose steps all meet `cond`. -/
inductive Run (cond : Tasks → TaskOp → Prop) (s₀ : Tasks) : Tasks → Prop where
  | start : Run cond s₀ s₀
  | step {s s' : Tasks} (op : TaskOp) (run : Run cond s₀ s) (meets : cond s op)
      (step : op.Steps s s') : Run cond s₀ s'

variable {cond : Tasks → TaskOp → Prop} {s₀ s : Tasks}

theorem Run.orderly (run : Run cond s₀ s) (h : s₀.sched.Orderly) (awake : s₀.sched.Awake) :
    s.sched.Orderly ∧ s.sched.Awake := by
  induction run with
  | start => exact ⟨h, awake⟩
  | step op _ _ step ih =>
    have passes := step.passes ih.1 ih.2
    exact ⟨passes.orderly, passes.awake⟩

theorem Run.runnable (run : Run Fair s₀ s) (h : s₀.sched.Orderly) (awake : s₀.sched.Awake)
    (past : s₀.sched.RunsRunnable) : s.sched.RunsRunnable := by
  induction run with
  | start => exact past
  | step op run meets step ih =>
    obtain ⟨order, wake⟩ := run.orderly h awake
    exact (step.passes order wake).runnable meets ih

theorem Run.complete (run : Run Calm s₀ s) (h : s₀.sched.Orderly) (awake : s₀.sched.Awake)
    (full : s₀.sched.Complete) : s.sched.Complete ∧ s.sched.dropped = s₀.sched.dropped := by
  induction run with
  | start => exact ⟨full, rfl⟩
  | step op run meets step ih =>
    obtain ⟨order, wake⟩ := run.orderly h awake
    have passes := step.passes order wake
    exact ⟨passes.complete meets ih.1, passes.dropped_eq.trans ih.2⟩

/-- The state after a list of operations. -/
def after (s : Tasks) : List TaskOp → Tasks
  | [] => s
  | op :: ops => after (op.exec s).state ops

/-- The operations can be made one after the other, each meeting `cond`. -/
def Follows (cond : Tasks → TaskOp → Prop) (s : Tasks) : List TaskOp → Prop
  | [] => True
  | op :: ops => cond s op ∧ op.Enabled s ∧ (op.exec s).faulted = false ∧
      Follows cond (op.exec s).state ops

theorem Run.follow (run : Run cond s₀ s) {ops : List TaskOp} (h : Follows cond s ops) :
    Run cond s₀ (after s ops) := by
  induction ops generalizing s with
  | nil => exact run
  | cons op ops ih =>
    obtain ⟨meets, enabled, returns, rest⟩ := h
    exact ih (run.step op meets ⟨enabled, Outcome.ends_state returns⟩) rest

end TaskOp

/-! ## From boot on -/

/-- No thread yet, every port empty, no futex in use. -/
def Tasks.boot : Tasks where
  sched := Scheduler.new
  ports id := {
    id
    queueLen := portQueueMax
    queue := fun _ => none
    head := Port.start
    tail := Port.start
    waiter := none }
  futexes _ := none
  ticks := 0

theorem Scheduler.new_orderly : Scheduler.new.Orderly where
  ready _ _ mem := absurd mem List.not_mem_nil
  nodup _ := List.nodup_nil
  apart _ _ mem := absurd mem List.not_mem_nil
  present _ cur := by cases cur
  sole _ _ ht := by cases ht
  idle _ := rfl

theorem Scheduler.new_awake : Scheduler.new.Awake := fun _ _ cur => by cases cur

/-- Exactly the ready threads that do not run are queued, each once, in the queue of its priority. -/
structure Scheduler.QueuesExact (s : Scheduler) : Prop where
  ready : ∀ i t, s.threads i = some t → t.state = .ready → s.currentIdx ≠ some i →
    ∀ p, (s.queues p).items.count i = if p = t.priority then 1 else 0
  other : ∀ i t, s.threads i = some t → t.state ≠ .dead → (t.state = .ready → s.currentIdx = some i) →
    ∀ p, i ∉ (s.queues p).items

theorem Scheduler.Orderly.exact {s : Scheduler} (h : s.Orderly) (full : s.Complete) :
    s.QueuesExact where
  ready i t ht ready away p := by
    have mem := full i t ht ready away
    split_ifs with eq
    · rw [eq]
      exact List.count_eq_one_of_mem (h.nodup _) mem
    · refine List.count_eq_zero.mpr fun mem' => eq ?_
      obtain ⟨u, hu, _, prio⟩ := h.ready p i mem'
      rw [ht] at hu
      cases hu
      exact prio.symm
  other i t ht _ away p mem := by
    obtain ⟨u, hu, ready, _⟩ := h.ready p i mem
    rw [ht] at hu
    cases hu
    exact h.apart p i mem (away ready)

/-- Whenever a thread blocks or dies in a run, and when the scheduler is started, somebody is queued
to run next. Then every thread that was made current was ready or running just before. -/
theorem selected_threads_runnable (s : Tasks) (run : TaskOp.Run TaskOp.Fair Tasks.boot s) :
    ∀ st ∈ s.sched.selections, st = .ready ∨ st = .running :=
  run.runnable Scheduler.new_orderly Scheduler.new_awake fun _ mem => absurd mem List.not_mem_nil

def Tcb.demo (id : Nat) : Tcb where
  id
  state := .initial
  priority := .normal
  processId := id
  ipcBuf := []
  ipcActualLen := 0
  ipcTransferHandles := [none, none, none, none]
  handleTable := some id
  ipcTransferSlots := [none, none]
  call := none
  timeSlice := defaultTimeSlice
  remainingTicks := defaultTimeSlice
  portPacketSlot := none
  waiting := none

/-- Of two threads the first blocks in a channel call, is woken by the second and runs again. -/
def Tasks.handover : List TaskOp :=
  [.add (Tcb.demo 1), .add (Tcb.demo 2), .run, .channelBlock, .channelWake 1, .tick]

theorem selected_threads_runnable_handover :
    (TaskOp.after Tasks.boot Tasks.handover).sched.selections = [.ready, .ready, .ready] ∧
      ∀ st ∈ (TaskOp.after Tasks.boot Tasks.handover).sched.selections, st = .ready ∨ st = .running :=
  ⟨by decide, selected_threads_runnable _ (TaskOp.Run.start.follow
    ⟨trivial, trivial, by decide, trivial, trivial, by decide, Or.inl ⟨.normal, by decide⟩, rfl,
      by decide, ⟨.normal, by decide⟩, trivial, by decide, trivial, trivial, by decide, trivial,
      trivial, by decide, trivial⟩)⟩

/-- The only thread of the machine blocks in a channel call, and `schedule` goes on with it. -/
theorem blocked_thread_selected :
    ∃ s, TaskOp.Run (fun _ _ => True) Tasks.boot s ∧ ThreadState.blocked ∈ s.sched.selections :=
  ⟨TaskOp.after Tasks.boot [.add (Tcb.demo 1), .run, .channelBlock],
    TaskOp.Run.start.follow ⟨trivial, trivial, by decide, trivial, rfl, by decide, trivial, trivial,
      by decide, trivial⟩, by decide⟩

/-- No thread that is asleep or dead is made ready by `Port::queue` or `sys_thread_start` in a run.
Then in every state reached the queues hold exactly the ready threads that do not run, no push has
failed, and none can fail. -/
theorem ready_queues_exact (s : Tasks) (run : TaskOp.Run TaskOp.Calm Tasks.boot s) :
    s.sched.QueuesExact ∧ s.sched.dropped = 0 ∧
      ∀ thread, s.sched.findEmptySlot ≠ none → ∃ s', Scheduler.add thread s.sched = .ok () s' := by
  have order := (run.orderly Scheduler.new_orderly Scheduler.new_awake).1
  obtain ⟨full, dropped⟩ := run.complete Scheduler.new_orderly Scheduler.new_awake
    fun _ _ ht => by cases ht
  refine ⟨order.exact full, dropped, fun thread room => ?_⟩
  obtain ⟨i, slot⟩ := Option.ne_none_iff_exists'.mp room
  exact ⟨_, Scheduler.add_eq order slot thread⟩

theorem ready_queues_exact_handover :
    (TaskOp.after Tasks.boot Tasks.handover).sched.QueuesExact ∧
      (TaskOp.after Tasks.boot Tasks.handover).sched.dropped = 0 ∧
      ∀ thread, (TaskOp.after Tasks.boot Tasks.handover).sched.findEmptySlot ≠ none →
        ∃ s', Scheduler.add thread (TaskOp.after Tasks.boot Tasks.handover).sched = .ok () s' :=
  ready_queues_exact _ (TaskOp.Run.start.follow
    ⟨trivial, trivial, by decide, trivial, trivial, by decide, trivial, rfl, by decide, trivial,
      trivial, by decide, trivial, trivial, by decide, trivial, trivial, by decide, trivial⟩)

/-- A thread that waits on a port is made ready by the packet, and is in no queue. -/
theorem packet_loses_wakeup :
    ∃ s, TaskOp.Run (fun _ _ => True) Tasks.boot s ∧ ¬ s.sched.QueuesExact := by
  refine ⟨TaskOp.after Tasks.boot [.add (Tcb.demo 1), .add (Tcb.demo 2), .run, .portWait 0,
    .portQueue 0 ⟨7, 0, 0, []⟩], TaskOp.Run.start.follow ⟨trivial, trivial, by decide, trivial, trivial,
      by decide, trivial, rfl, by decide, trivial, trivial, by decide, trivial, trivial, by decide,
      trivial⟩, fun exact_ => ?_⟩
  have count := exact_.ready ⟨0, by decide⟩ _ rfl (by decide) (by decide) .normal
  revert count
  decide

end CapsuleOS
