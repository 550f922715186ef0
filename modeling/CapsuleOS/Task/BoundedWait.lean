import CapsuleOS.Task.Selection

/-!
# Waiting is bounded

A thread that waits in a queue is passed by the threads of higher levels as often as these are selected,
by no thread of a lower level, and by a thread of its own level only if that one stood before it. The timer
selects somebody at each tick. So the ticks of a wait are at most the threads in front and the selections of
higher levels, and a level that never comes to rest starves all levels below.
-/
namespace CapsuleOS

open Lib

/-- The place in the order of the search. -/
def Priority.rank : Priority → Nat
  | .realtime => 0
  | .high => 1
  | .normal => 2
  | .low => 3
  | .idle => 4

/-- Searched earlier. -/
def Priority.Above (q p : Priority) : Prop := q.rank < p.rank

instance (q p : Priority) : Decidable (q.Above p) := inferInstanceAs (Decidable (q.rank < p.rank))

theorem Priority.levels_sorted : Priority.levels.Pairwise (fun q p => q.Above p) := by decide

/-- A level is the one at the cut, or it is before or behind it. -/
theorem Priority.mem_split {above below : List Priority} {q : Priority}
    (levels : Priority.levels = above ++ q :: below) (p : Priority) : p ∈ above ∨ p = q ∨ q.Above p := by
  have sorted := Priority.levels_sorted
  have mem := p.mem_levels
  rw [levels] at sorted mem
  rcases List.mem_append.mp mem with first | later
  · exact .inl first
  · have behind := (List.pairwise_cons.mp (List.pairwise_append.mp sorted).2.1).1
    exact .inr ((List.mem_cons.mp later).imp_right (behind p))

namespace Scheduler

variable {s s' u : Scheduler} {p : Priority} {i : Fin maxThreads} {front back : List (Fin maxThreads)}

/-! ## One selection -/

/-- The first level that is not empty is served. -/
theorem popCandidate_first {next : Fin maxThreads} (popped : s.popCandidate = some (next, s')) :
    ∃ above q below rest, Priority.levels = above ++ q :: below ∧ (∀ a ∈ above, (s.queues a).items = []) ∧
      (s.queues q).items = next :: rest.items ∧ s' = s.setQueue q rest := by
  obtain ⟨above, q, below, levels, found, before⟩ := List.findSome?_eq_some_iff.mp popped
  obtain ⟨⟨j, rest⟩, pop, eq⟩ := Option.map_eq_some_iff.mp found
  cases eq
  refine ⟨above, q, below, rest, levels, fun a mem => ?_, ThreadQueue.pop_eq_some pop, rfl⟩
  exact ThreadQueue.pop_eq_none.mp (Option.map_eq_none_iff.mp (before a mem))

/-- `next` is selected from the queue `q` of `s`, which is not lower than `p`. -/
structure PicksFrom (s : Scheduler) (p q : Priority) (next : Fin maxThreads) (rest : ThreadQueue) : Prop where
  popped : s.popNextFromAllQueues = (some next, s.setQueue q rest)
  items : (s.queues q).items = next :: rest.items
  level : q = p ∨ q.Above p
  thread : ∃ t, s.threads next = some t ∧ t.priority = q

/-- With an entry at level `p` there is a selection, and from no lower level. -/
theorem QueuesOk.picksFrom (h : s.QueuesOk) (queued : (s.queues p).items ≠ []) :
    ∃ q next rest, s.PicksFrom p q next rest := by
  have first : s.popNextFromAllQueues = popLoop (15 + 1) s := rfl
  cases popped : s.popCandidate with
  | none => exact absurd (popCandidate_eq_none.mp popped p) queued
  | some r =>
    obtain ⟨next, s'⟩ := r
    obtain ⟨above, q, below, rest, levels, empty, items, rfl⟩ := popCandidate_first popped
    obtain ⟨t, found, ready, priority⟩ := h.ready q next (items ▸ List.mem_cons_self)
    have alive : (s.setQueue q rest).isDead next = false := by simp [isDead, found, ready]
    refine ⟨q, next, rest, by simp [first, popLoop, popped, alive], items, ?_, t, found, priority⟩
    rcases Priority.mem_split levels p with higher | same | lower
    · exact absurd (empty p higher) queued
    · exact .inl same.symm
    · exact .inr lower

/-- The levels of the threads selected from `s` to `s'`, which are two states of one step. -/
def picked (s s' : Scheduler) : List Priority :=
  if s.selections.length < s'.selections.length then (s'.getCurrentThread.map (·.priority)).toList else []

theorem picked_none (same : s'.selections = s.selections) : picked s s' = [] := by simp [picked, same]

/-- What a step leaves of a wait: the threads before `i` and the selections that they account for. -/
structure Bypass (p : Priority) (i : Fin maxThreads) (front : List (Fin maxThreads)) (picks : List Priority)
    (s' : Scheduler) (front' : List (Fin maxThreads)) : Prop where
  items : ∃ back, (s'.queues p).items = front' ++ i :: back
  fewer : picks.count p + front'.length ≤ front.length
  levels : ∀ q ∈ picks, q = p ∨ q.Above p

theorem Bypass.still {picks : List Priority} (none_picked : picks = [])
    (items : ∃ back, (s'.queues p).items = front ++ i :: back) : Bypass p i front picks s' front := by
  subst none_picked
  exact ⟨items, by simp, by simp⟩

/-- The selected thread is not `i`, so it was in another queue or before `i`. -/
theorem PicksFrom.bypass {q : Priority} {next : Fin maxThreads} {rest : ThreadQueue} (h : u.PicksFrom p q next rest)
    (queue : (u.queues p).items = front ++ i :: back) (other : next ≠ i)
    (same : u.selections = s.selections) :
    (picked s ((u.setQueue q rest).activate next)).length = 1 ∧
      ∃ front', Bypass p i front (picked s ((u.setQueue q rest).activate next))
        ((u.setQueue q rest).activate next) front' := by
  obtain ⟨t, found, priority⟩ := h.thread
  have now : ((u.setQueue q rest).activate next).threads next = some t.activate := by
    simp [activate, modifyAt, setThread, found]
  have picks : picked s ((u.setQueue q rest).activate next) = [q] := by
    have longer : s.selections.length < ((u.setQueue q rest).activate next).selections.length := by
      rw [← same]
      simp [activate, setQueue, found]
    rw [picked, if_pos longer]
    simp only [getCurrentThread, show ((u.setQueue q rest).activate next).currentIdx = some next from rfl,
      Option.bind_some, now]
    simp [Tcb.activate, Tcb.resetTimeSlice, priority]
  have queues : ∀ p', (((u.setQueue q rest).activate next).queues p').items =
      if p' = q then rest.items else (u.queues p').items := by
    intro p'
    simp only [activate, modifyAt_queues, setQueue_queues]
    split_ifs <;> rfl
  rw [picks]
  refine ⟨rfl, ?_⟩
  rcases h.level with rfl | higher
  · cases front with
    | nil =>
      have eq := h.items.symm.trans queue
      exact absurd (List.cons.inj eq).1 other
    | cons j front =>
      have eq := h.items.symm.trans queue
      refine ⟨front, ⟨back, ?_⟩, by simp; omega, by simp⟩
      rw [queues, if_pos rfl]
      exact (List.cons.inj eq).2
  · have ne : p ≠ q := by
      rintro rfl
      exact lt_irrefl _ higher
    refine ⟨front, ⟨back, ?_⟩, by simp [ne.symm], by simp [higher]⟩
    rw [queues, if_neg ne, queue]

/-! ## Giving way -/

/-- A write to the running thread that leaves the order as it is. -/
structure SelfWrite (s u : Scheduler) : Prop where
  orderly : s.Orderly → u.Orderly
  queues : u.queues = s.queues
  running : u.running = s.running
  current : u.currentIdx = s.currentIdx
  selections : u.selections = s.selections

instance : Std.Refl SelfWrite := ⟨fun _ => ⟨id, rfl, rfl, rfl, rfl⟩⟩

instance : IsTrans Scheduler SelfWrite := ⟨fun _ _ _ h h' => ⟨fun o => h'.1 (h.1 o), h'.2.trans h.2,
  h'.3.trans h.3, h'.4.trans h.4, h'.5.trans h.5⟩⟩

theorem selfWrite_modifyAt (cur : s.currentIdx = some i) (f : Tcb → Tcb) : SelfWrite s (s.modifyAt i f) where
  orderly h := by
    have out : ∀ p, i ∉ (s.queues p).items := fun p mem => h.apart p i mem cur
    refine ⟨h.toQueuesOk.modifyAt i f fun _ _ => .inl out, h.apart, fun j here => ?_, fun j t ht run => ?_, h.idle⟩
    · obtain ⟨t, ht⟩ := h.present j here
      rw [modifyAt_threads]
      split_ifs with same
      · exact ⟨f t, by rw [← same, ht]; rfl⟩
      · exact ⟨t, ht⟩
    · rcases modifyAt_inv ht with ⟨rfl, -⟩ | ⟨-, old⟩
      · exact cur
      · exact h.sole j t old run
  queues := rfl
  running := rfl
  current := rfl
  selections := rfl

theorem selfWrite_setCurrentState (s : Scheduler) (state : ThreadState) :
    SelfWrite s (s.setCurrentState state) := by
  unfold setCurrentState
  cases cur : s.currentIdx with
  | none => exact Std.Refl.refl s
  | some i => exact selfWrite_modifyAt cur _

/-- The queue of `i` when the previous thread has been put back. -/
theorem Grows.items (h : s.Grows s') (queue : (s.queues p).items = front ++ i :: back) :
    ∃ back', (s'.queues p).items = front ++ i :: back' := by
  obtain ⟨added, eq⟩ := h p
  exact ⟨back ++ added, by rw [eq, queue, List.append_assoc, List.cons_append]⟩

/-- `schedule`, while `i` waits, selects a thread that does not come after `i`. -/
theorem schedule_bypass (h : u.Orderly) (queue : (u.queues p).items = front ++ i :: back)
    (same : u.selections = s.selections) (ran : (schedule u).Ends s') (waits : s'.Waits i) :
    (u.running = true → u.currentIdx.isSome → (picked s s').length = 1) ∧
      ∃ front', Bypass p i front (picked s s') s' front' := by
  have stays : ∀ {v}, v = u → ∃ front', Bypass p i front (picked s v) v front' := by
    rintro v rfl
    exact ⟨front, .still (picked_none same) ⟨back, queue⟩⟩
  unfold schedule at ran
  split_ifs at ran with on
  · cases cur : u.currentIdx with
    | none =>
      simp only [cur] at ran
      cases ran
      exact ⟨fun _ here => (by cases here), stays rfl⟩
    | some prev =>
      have retired := retire_retired h cur
      obtain ⟨back', queue'⟩ := (retire_grows u prev).items queue
      obtain ⟨q, next, rest, picks_from⟩ := retired.queues.picksFrom (p := p) (by simp [queue'])
      simp only [cur, selectNext, picks_from.popped] at ran
      split_ifs at ran
      · cases ran
      · cases ran
        have other : next ≠ i := fun eq => waits.2 (congrArg some eq)
        obtain ⟨one, left⟩ := picks_from.bypass (s := s) queue' other (retired.selections_eq.trans same)
        exact ⟨fun _ _ => one, left⟩
  · cases ran
    exact ⟨fun on' => absurd on' on, stays rfl⟩

theorem run_bypass (h : u.Orderly) (queue : (u.queues p).items = front ++ i :: back)
    (same : u.selections = s.selections) (ran : (run u).Ends s') (waits : s'.Waits i) :
    ∃ front', Bypass p i front (picked s s') s' front' := by
  have started : ({ u with running := true } : Scheduler).QueuesOk := ⟨h.ready, h.nodup⟩
  obtain ⟨q, next, rest, picks_from⟩ := started.picksFrom (p := p) (by simp [queue])
  simp only [run, picks_from.popped] at ran
  cases ran
  have other : next ≠ i := fun eq => waits.2 (congrArg some eq)
  exact (picks_from.bypass (s := s) queue other same).2

theorem GivesWay.bypass (gives : u.GivesWay s') (h : u.Orderly)
    (queue : (u.queues p).items = front ++ i :: back) (same : u.selections = s.selections)
    (waits : s'.Waits i) : ∃ front', Bypass p i front (picked s s') s' front' := by
  cases gives with
  | stays => exact ⟨front, .still (picked_none same) ⟨back, queue⟩⟩
  | schedules ran => exact (schedule_bypass h queue same ran waits).2
  | starts ran => exact run_bypass h queue same ran waits

/-! ## Calls that do not give way -/

/-- The queues grow, and nobody is selected. -/
structure Unselected (s s' : Scheduler) : Prop where
  grows : s.Grows s'
  running : s'.running = s.running
  current : s'.currentIdx = s.currentIdx
  selections : s'.selections = s.selections

instance : Std.Refl Unselected := ⟨fun s => ⟨.refl s, rfl, rfl, rfl⟩⟩

instance : IsTrans Scheduler Unselected := ⟨fun _ _ _ h h' =>
  ⟨h.1.trans h'.1, h'.2.trans h.2, h'.3.trans h.3, h'.4.trans h.4⟩⟩

theorem unselected_absorbs : Absorbs Unselected where
  add s s' thread ran := by
    have grows := add_grows ran
    unfold add at ran
    split at ran
    · cases ran
    · split at ran
      · cases ran
        exact ⟨grows, rfl, rfl, rfl⟩
      · cases ran
  write _ _ _ _ := ⟨.of_queues rfl, rfl, rfl, rfl⟩
  requeue s i := ⟨requeueCurrent_grows s i, by simp, by simp, requeueCurrent_selections s i⟩

end Scheduler

/-! ## Calls -/

namespace Tasks

open Scheduler

theorem modifyCurrent_selfWrite (f : Tcb → Tcb) : Prog.Within (Rel SelfWrite) (modifyCurrent f) := by
  refine modifySched_within fun s => ?_
  cases cur : s.currentIdx with
  | none => exact Std.Refl.refl s
  | some i => exact selfWrite_modifyAt cur f

theorem portTry_selfWrite (p : Nat) (next : Fin portQueueMax) (frame : WaitFrame) :
    Prog.Within (Rel SelfWrite) (portTry p next frame) :=
  portTry_within (fun _ => modifyCurrent_selfWrite _) p next frame

theorem portWait_splits (p : Nat) : Splits SelfWrite (portWait p) := by
  rw [portWait_eq]
  exact .bind (Prog.Within.get.bind fun _ => portTry_selfWrite _ _ _) giveWay_splits

theorem portWaitWithTimeout_splits (p ms : Nat) : Splits SelfWrite (portWaitWithTimeout p ms) := by
  rw [portWaitWithTimeout_eq]
  exact .bind (Prog.Within.get.bind fun _ => portTry_selfWrite _ _ _) giveWay_splits

theorem futexWait_splits (addr expected value : Nat) : Splits SelfWrite (futexWait addr expected value) := by
  unfold futexWait
  split_ifs
  · exact .of_within (.pure _)
  refine .bind currentThread_within fun t => .bind Prog.Within.get fun s => ?_
  split
  · exact .of_within ((modify_within (by intro; rfl)).bind fun _ => .throw _)
  · refine .bind (modify_within (by intro; rfl)) fun _ => .bind (modifyCurrent_selfWrite _) fun _ => ?_
    exact .leave fun s => selfWrite_setCurrentState s .blocked

end Tasks

namespace TaskOp

open Tasks Scheduler

variable {s s' s₀ : Tasks} {p : Priority} {i : Fin maxThreads} {front back : List (Fin maxThreads)}

/-- However the call returns, it has selected nobody. -/
def SelectsNone (m : TaskM Unit) : Prop := ∀ s s', (m s).Ends s' → Unselected s.sched s'.sched

theorem SelectsNone.of_within {m : TaskM Unit} (h : Prog.Within (Rel Unselected) m) : SelectsNone m := by
  intro s s' ran
  have rel := h s
  rwa [ran.state_eq] at rel

/-- A call selects nobody, or it writes to the running thread and gives way. -/
theorem exec_selectsNone_or_splits (op : TaskOp) : SelectsNone op.exec ∨ Splits SelfWrite op.exec := by
  have a := unselected_absorbs
  cases op with
  | add thread => exact .inl fun s s' ran => a.add s.sched s'.sched thread (onSched_ends ran)
  | run => exact .inr fun s s' ran => ⟨_, Std.Refl.refl _, .starts (onSched_ends ran)⟩
  | tick => exact .inr (.bind (modify_within (by intro; rfl)) fun _ => .leave Std.Refl.refl)
  | yield => exact .inr (.leave Std.Refl.refl)
  | channelBlock => exact .inr (.leave fun s => selfWrite_setCurrentState s .blocked)
  | channelFull => exact .inl (.of_within (modifySched_within fun s => a.setCurrentState s .running))
  | channelGiveUp => exact .inl (.of_within (modifySched_within a.giveUp))
  | channelWake tid => exact .inl (.of_within (modifySched_within fun s => a.wakeThread s tid))
  | portWait p => exact .inr (portWait_splits p).map
  | portWaitWithTimeout p ms => exact .inr (portWaitWithTimeout_splits p ms).map
  | portQueue p packet => exact .inl (.of_within (a.portQueue p packet))
  | futexWait addr expected value => exact .inr (futexWait_splits addr expected value)
  | futexWake addr count => exact .inl (.of_within ((a.futexWake addr count).bind fun _ => .pure _))
  | futexRequeue addr count _ => exact .inl (.of_within ((a.futexWake addr count).bind fun _ => .pure _))
  | resume => exact .inl (.of_within a.resume)
  | threadStart tid => exact .inl (.of_within (onSched_within (a.threadStart tid)))
  | die => exact .inr (.leave fun s => selfWrite_setCurrentState s .dead)

theorem Steps.bypass {op : TaskOp} (step : op.Steps s s') (h : s.sched.Orderly)
    (queue : (s.sched.queues p).items = front ++ i :: back) (waits : s'.sched.Waits i) :
    ∃ front', Bypass p i front (picked s.sched s'.sched) s'.sched front' := by
  rcases exec_selectsNone_or_splits op with none_selected | splits
  · have quiet := none_selected s s' step.ran
    exact ⟨front, .still (picked_none quiet.selections) (quiet.grows.items queue)⟩
  · obtain ⟨u, write, gives⟩ := splits s s' step.ran
    exact gives.bypass (write.orderly h) (by rw [write.queues]; exact queue) write.selections waits

/-- A started scheduler has somebody to run. -/
def Started (s : Scheduler) : Prop := s.running = true → s.currentIdx.isSome

theorem Steps.started {op : TaskOp} (step : op.Steps s s') (h : s.sched.Orderly) (started : Started s.sched) :
    Started s'.sched ∧ (s.sched.running = true → s'.sched.running = true) := by
  rcases exec_selectsNone_or_splits op with none_selected | splits
  · have quiet := none_selected s s' step.ran
    rw [Started, quiet.running, quiet.current]
    exact ⟨started, id⟩
  · obtain ⟨u, write, gives⟩ := splits s s' step.ran
    rw [Started, ← write.running, ← write.current] at started
    rw [← write.running]
    cases gives with
    | stays => exact ⟨started, id⟩
    | schedules ran =>
      have result := schedule_scheduled (write.orderly h)
      generalize schedule u = out at ran result
      generalize s'.sched = v at ran ⊢
      cases result with
      | idle => cases ran; exact ⟨started, id⟩
      | queued prev cur => cases ran; exact ⟨fun _ => rfl, (retire_frame u prev).2.1.trans⟩
      | scanned prev cur => cases ran; exact ⟨fun _ => rfl, (retire_frame u prev).2.1.trans⟩
      | halted => cases ran
    | starts ran =>
      have frame := popLoop_frame maxThreads { u with running := true }
      unfold Scheduler.run popNextFromAllQueues at ran
      generalize popLoop maxThreads { u with running := true } = r at frame ran
      generalize s'.sched = v at ran ⊢
      obtain ⟨next, w⟩ := r
      cases next with
      | some next => cases ran; exact ⟨fun _ => rfl, fun _ => frame.2.1⟩
      | none => cases ran

theorem Run.started {cond : Tasks → TaskOp → Prop} (run : Run cond boot s) : Started s.sched := by
  induction run with
  | start => exact fun on => by cases on
  | step op run _ step ih => exact (step.started (run.orderly new_orderly new_awake).1 ih).1

def isTick : TaskOp → Bool
  | .tick => true
  | _ => false

/-- The timer selects somebody. -/
theorem Steps.tick_picks {op : TaskOp} (step : op.Steps s s') (tick : op.isTick = true) (h : s.sched.Orderly)
    (on : s.sched.running = true) (current : s.sched.currentIdx.isSome)
    (queue : (s.sched.queues p).items = front ++ i :: back) (waits : s'.sched.Waits i) :
    (picked s.sched s'.sched).length = 1 := by
  cases op <;> simp only [isTick, Bool.false_eq_true] at tick
  have ran := step.ran
  rcases Prog.bind_ends ran with ⟨_, bad⟩ | ⟨_, s₁, ok, rest⟩
  · cases bad
  cases ok
  exact (schedule_bypass h queue rfl
    (onSched_ends (s := { s with ticks := s.ticks + 1 }) rest) waits).1 on current

/-! ## Whole waits -/

/-- A run in which `i` waits all the time, with the levels of the threads that are selected in it and the
number of its timer ticks. -/
inductive Waiting (i : Fin maxThreads) (s₀ : Tasks) : List Priority → Nat → Tasks → Prop where
  | start (waits : s₀.sched.Waits i) : Waiting i s₀ [] 0 s₀
  | step {s s' : Tasks} {picks : List Priority} {ticks : Nat} (op : TaskOp)
      (before : Waiting i s₀ picks ticks s) (step : op.Steps s s') (waits : s'.sched.Waits i) :
      Waiting i s₀ (picks ++ picked s.sched s'.sched) (ticks + op.isTick.toNat) s'

/-- The limits of a wait at level `p` behind `before` threads. -/
structure Bounded (p : Priority) (before : Nat) (picks : List Priority) (ticks : Nat) : Prop where
  noLower : ∀ q ∈ picks, q = p ∨ q.Above p
  equals : picks.count p ≤ before
  ticks : ticks ≤ before + picks.countP (·.Above p)

theorem count_add_countP_above {picks : List Priority} (noLower : ∀ q ∈ picks, q = p ∨ q.Above p) :
    picks.length = picks.count p + picks.countP (·.Above p) := by
  induction picks with
  | nil => rfl
  | cons q picks ih =>
    have rest := ih fun q' mem => noLower q' (List.mem_cons_of_mem _ mem)
    rcases noLower q List.mem_cons_self with rfl | higher
    · have self : ¬q.Above q := lt_irrefl _
      rw [List.length_cons, List.count_cons_self, List.countP_cons_of_neg (by simpa using self)]
      omega
    · have ne : q ≠ p := by
        rintro rfl
        exact lt_irrefl _ higher
      rw [List.length_cons, List.count_cons_of_ne ne, List.countP_cons_of_pos (by simpa using higher)]
      omega

/-- The run with what it does to the queue of `i`. -/
theorem Waiting.bypass {picks : List Priority} {ticks : Nat} (run : Run (fun _ _ => True) boot s₀)
    (on : s₀.sched.running = true) (queue : (s₀.sched.queues p).items = front ++ i :: back)
    (waiting : Waiting i s₀ picks ticks s) : Run (fun _ _ => True) boot s ∧ s.sched.running = true ∧
      ticks ≤ picks.length ∧ ∃ front', Bypass p i front picks s.sched front' := by
  induction waiting with
  | start => exact ⟨run, on, le_rfl, front, .still rfl ⟨back, queue⟩⟩
  | @step s s' picks ticks op _ step waits ih =>
    obtain ⟨reached, on, fewer, front₁, bypass⟩ := ih
    obtain ⟨back₁, queue₁⟩ := bypass.items
    have order := (reached.orderly new_orderly new_awake).1
    obtain ⟨front', left⟩ := step.bypass order queue₁ waits
    refine ⟨reached.step op trivial step, ?_, ?_, front', left.items, ?_, fun q mem => ?_⟩
    · exact (step.started order reached.started).2 on
    · rw [List.length_append]
      cases tick : op.isTick with
      | false => exact fewer.trans (Nat.le_add_right _ _)
      | true =>
        have one := step.tick_picks tick order on (reached.started on) queue₁ waits
        rw [one]
        exact Nat.add_le_add_right fewer 1
    · have first := bypass.fewer
      have second := left.fewer
      rw [List.count_append]
      omega
    · rcases List.mem_append.mp mem with old | new
      · exact bypass.levels q old
      · exact left.levels q new

/-- In every reachable state of the started scheduler a thread that waits in a queue is passed by no thread
of a lower level, at most once by each thread before it, and by no tick in vain. -/
theorem wait_bounded {picks : List Priority} {ticks : Nat} (run : Run (fun _ _ => True) boot s₀)
    (on : s₀.sched.running = true) (queue : (s₀.sched.queues p).items = front ++ i :: back)
    (waiting : Waiting i s₀ picks ticks s) : Bounded p front.length picks ticks := by
  obtain ⟨-, -, fewer, front', bypass⟩ := waiting.bypass run on queue
  have count := bypass.fewer
  have both := count_add_countP_above bypass.levels
  exact ⟨bypass.levels, by omega, by omega⟩

/-- Of three threads the third waits behind the second, which a tick selects. -/
theorem wait_bounded_trio : Bounded .normal 1
    ([] ++ picked trio.sched (after trio [.tick]).sched) (0 + TaskOp.tick.isTick.toNat) :=
  @wait_bounded _ _ .normal ⟨2, by decide⟩ [⟨1, by decide⟩] [] _ _ trio_run rfl (by decide)
    (.step .tick (.start ⟨rfl, by decide⟩) ⟨trivial, Outcome.ends_state (by decide)⟩ ⟨rfl, by decide⟩)

end TaskOp

end CapsuleOS
