import CapsuleOS.Task.Selection

/-!
# Priority decay

`schedule` takes a tick from the thread it is called on and lowers its priority when none is left; then it
gives a whole slice to the thread that it selects. So whoever runs has run for less than a tick, and only a
slice of a single tick is ever used up.
-/
namespace CapsuleOS

open Lib

/-- One level down; the two lowest stay. -/
def Priority.lower : Priority → Priority
  | .realtime => .high
  | .high => .normal
  | .normal => .low
  | .low => .low
  | .idle => .idle

/-- The levels from which a thread can come down. -/
def Priority.Decays (p : Priority) : Prop := p = .realtime ∨ p = .high ∨ p = .normal

theorem Priority.Decays.lower_ne {p : Priority} (h : p.Decays) : p.lower ≠ p := by
  rcases h with rfl | rfl | rfl <;> decide

namespace Tcb

variable {t : Tcb}

@[simp] theorem decayPriority_priority (t : Tcb) : t.decayPriority.priority = t.priority.lower := by
  unfold decayPriority resetTimeSlice
  cases t.priority <;> rfl

@[simp] theorem decayPriority_timeSlice (t : Tcb) : t.decayPriority.timeSlice = t.timeSlice := rfl

/-- The last tick brings the thread down one level. -/
theorem expire_eq (t : Tcb) : ∃ u : Tcb, u.priority = t.priority ∧ u.timeSlice = t.timeSlice ∧
    t.expire = if t.remainingTicks ≤ 1 then u.decayPriority else u := by
  have gone : t.remainingTicks - 1 = 0 ↔ t.remainingTicks ≤ 1 := by omega
  unfold expire
  by_cases running : t.state = .running
  · refine ⟨{ t.withState .ready with remainingTicks := t.remainingTicks - 1 }, rfl, rfl, ?_⟩
    simp only [if_pos running]
    exact if_congr gone rfl rfl
  · refine ⟨{ t with remainingTicks := t.remainingTicks - 1 }, rfl, rfl, ?_⟩
    simp only [if_neg running]
    exact if_congr gone rfl rfl

theorem expire_priority (t : Tcb) :
    t.expire.priority = if t.remainingTicks ≤ 1 then t.priority.lower else t.priority := by
  obtain ⟨u, priority, -, eq⟩ := expire_eq t
  rw [eq]
  split_ifs
  · rw [decayPriority_priority, priority]
  · exact priority

@[simp] theorem expire_timeSlice (t : Tcb) : t.expire.timeSlice = t.timeSlice := by
  obtain ⟨u, -, timeSlice, eq⟩ := expire_eq t
  rw [eq]
  split_ifs <;> exact timeSlice

/-- Priority and slice, and what is left of it. -/
structure SameClock (t t' : Tcb) : Prop where
  priority_eq : t'.priority = t.priority
  timeSlice_eq : t'.timeSlice = t.timeSlice
  remainingTicks_eq : t'.remainingTicks = t.remainingTicks

theorem SameClock.refl (t : Tcb) : t.SameClock t := ⟨rfl, rfl, rfl⟩

theorem SameClock.trans {t' t'' : Tcb} (h : t.SameClock t') (h' : t'.SameClock t'') : t.SameClock t'' :=
  ⟨h'.1.trans h.1, h'.2.trans h.2, h'.3.trans h.3⟩

/-- A thread whose slice is at least two ticks keeps its priority. -/
structure Steady (t t' : Tcb) : Prop where
  timeSlice_eq : t'.timeSlice = t.timeSlice
  priority_eq : 2 ≤ t.timeSlice → t'.priority = t.priority

theorem Steady.refl (t : Tcb) : t.Steady t := ⟨rfl, fun _ => rfl⟩

theorem Steady.trans {t' t'' : Tcb} (h : t.Steady t') (h' : t'.Steady t'') : t.Steady t'' :=
  ⟨h'.1.trans h.1, fun two => (h'.2 (h.1 ▸ two)).trans (h.2 two)⟩

theorem SameClock.steady {t' : Tcb} (h : t.SameClock t') : t.Steady t' := ⟨h.2, fun _ => h.1⟩

/-- The thread has its whole slice before it. -/
theorem expire_steady (full : t.remainingTicks = t.timeSlice) : t.Steady t.expire := by
  refine ⟨t.expire_timeSlice, fun two => ?_⟩
  rw [expire_priority, full, if_neg (by omega)]

theorem activate_steady (t : Tcb) : t.Steady t.activate := ⟨rfl, fun _ => rfl⟩

end Tcb

namespace Scheduler

variable {s s' u : Scheduler} {prev i : Fin maxThreads} {t : Tcb}

/-- The scheduler has been started, and the running thread has its whole slice before it. -/
def Full (s : Scheduler) : Prop := ∀ i, s.currentIdx = some i →
  s.running = true ∧ ∃ t, s.threads i = some t ∧ t.remainingTicks = t.timeSlice

/-- Threads are as before as far as their time goes, and the same one runs. -/
structure Quiet (s s' : Scheduler) : Prop where
  running : s'.running = s.running
  current : s'.currentIdx = s.currentIdx
  selections : s'.selections = s.selections
  clocks : ∀ i t, s.threads i = some t → ∃ t', s'.threads i = some t' ∧ t.SameClock t'

instance : Std.Refl Quiet := ⟨fun _ => ⟨rfl, rfl, rfl, fun _ t ht => ⟨t, ht, .refl t⟩⟩⟩

instance : IsTrans Scheduler Quiet := ⟨fun _ _ _ h h' => by
  refine ⟨h'.1.trans h.1, h'.2.trans h.2, h'.3.trans h.3, fun i t ht => ?_⟩
  obtain ⟨t', ht', same⟩ := h.clocks i t ht
  obtain ⟨t'', ht'', same'⟩ := h'.clocks i t' ht'
  exact ⟨t'', ht'', same.trans same'⟩⟩

theorem Quiet.full (h : Quiet s s') (full : s.Full) : s'.Full := by
  intro i cur
  obtain ⟨running, t, ht, whole⟩ := full i (h.current ▸ cur)
  obtain ⟨t', ht', same⟩ := h.clocks i t ht
  exact ⟨h.running.trans running, t', ht', by rw [same.remainingTicks_eq, same.timeSlice_eq, whole]⟩

theorem quiet_absorbs : Absorbs Quiet where
  add s s' thread ran := by
    have frame := add_frame ran
    unfold add at ran
    split at ran
    · cases ran
    · split at ran
      · cases ran
        exact ⟨rfl, rfl, rfl, fun i t ht => ⟨t, frame.2 i t ht, .refl t⟩⟩
      · cases ran
  write s i f marked := by
    refine ⟨rfl, rfl, rfl, fun j t ht => ?_⟩
    rw [modifyAt_threads]
    split_ifs with here
    · rw [← here, ht]
      exact ⟨f t, rfl, (marked t).3, (marked t).4, (marked t).5⟩
    · exact ⟨t, ht, .refl t⟩
  requeue s i := by
    refine ⟨by simp, by simp, by simp, fun j t ht => ⟨t, ?_, .refl t⟩⟩
    rwa [requeueCurrent_threads]

theorem popLoop_selections (fuel : Nat) (s : Scheduler) :
    (popLoop fuel s).2.selections = s.selections := by
  induction fuel generalizing s with
  | zero => rfl
  | succ fuel ih =>
    rw [popLoop]
    cases popped : s.popCandidate with
    | none => rfl
    | some r =>
      obtain ⟨i, s'⟩ := r
      obtain ⟨p, q, -, rfl⟩ := popCandidate_eq_some popped
      dsimp only
      split_ifs
      · exact ih _
      · rfl

theorem retire_selections (s : Scheduler) (prev : Fin maxThreads) :
    (s.retire prev).selections = s.selections := by
  unfold retire
  dsimp only
  split
  · split_ifs
    · exact requeueCurrent_selections _ _
    · rfl
  · rfl

/-- The thread in `next` is made current, and gets a new slice. -/
structure Picks (u : Scheduler) (next : Fin maxThreads) (t : Tcb) (s' : Scheduler) : Prop where
  found : u.threads next = some t
  running : s'.running = true
  current : s'.currentIdx = some next
  threads : s'.threads = Function.update u.threads next (some t.activate)
  longer : u.selections.length < s'.selections.length

theorem activate_picks {next : Fin maxThreads} (found : u.threads next = some t) (on : u.running = true) :
    u.Picks next t (u.activate next) where
  found := found
  running := on
  current := rfl
  threads := by
    unfold activate modifyAt setThread
    rw [found]
    rfl
  longer := by
    unfold activate
    simp [found]

theorem Picks.full {next : Fin maxThreads} (h : u.Picks next t s') : s'.Full := by
  intro i cur
  cases h.current.symm.trans cur
  refine ⟨h.running, t.activate, ?_, rfl⟩
  rw [h.threads, Function.update_self]

theorem Picks.steady {next : Fin maxThreads} (h : u.Picks next t s') {j : Fin maxThreads} {v : Tcb}
    (hv : u.threads j = some v) : ∃ v', s'.threads j = some v' ∧ v.Steady v' := by
  rw [h.threads]
  by_cases here : j = next
  · subst here
    cases h.found.symm.trans hv
    exact ⟨_, Function.update_self .., t.activate_steady⟩
  · exact ⟨v, by rwa [Function.update_of_ne here], .refl v⟩

/-- The previous thread has lost a tick; then another thread is selected, or none. -/
theorem schedule_expires (on : s.running = true) (cur : s.currentIdx = some prev)
    (ran : (schedule s).Ends s') : ∃ u : Scheduler, u.threads = (s.modifyAt prev Tcb.expire).threads ∧
      u.selections = s.selections ∧
      ((∃ next t, u.Picks next t s') ∨ s'.currentIdx = none ∧ s'.threads = u.threads) := by
  have frame := popLoop_frame maxThreads (s.retire prev)
  have alive := @popLoop_alive maxThreads (s.retire prev)
  have same := popLoop_selections maxThreads (s.retire prev)
  simp only [schedule, if_pos on, cur, selectNext, popNextFromAllQueues] at ran
  generalize popLoop maxThreads (s.retire prev) = r at frame alive same ran
  obtain ⟨next, u⟩ := r
  obtain ⟨threads, running, -⟩ := frame
  refine ⟨u, threads.trans (retire_threads s prev), same.trans (retire_selections s prev), ?_⟩
  cases next with
  | some next =>
    obtain ⟨t, found, -⟩ := alive rfl
    dsimp only at ran
    split_ifs at ran <;> cases ran
    refine .inl ⟨next, t, activate_picks (threads ▸ found) ?_⟩
    rw [running, (retire_frame s prev).2.1, on]
  | none =>
    dsimp only at ran
    split_ifs at ran <;> cases ran
    exact .inr ⟨rfl, rfl⟩

theorem run_picks (ran : (run s).Ends s') : ∃ u : Scheduler, u.threads = s.threads ∧
    u.selections = s.selections ∧ ∃ next t, u.Picks next t s' := by
  have frame := popLoop_frame maxThreads { s with running := true }
  have alive := @popLoop_alive maxThreads { s with running := true }
  have same := popLoop_selections maxThreads { s with running := true }
  simp only [run, popNextFromAllQueues] at ran
  generalize popLoop maxThreads { s with running := true } = r at frame alive same ran
  obtain ⟨next, u⟩ := r
  cases next with
  | some next =>
    obtain ⟨t, found, -⟩ := alive rfl
    cases ran
    exact ⟨u, frame.1, same, next, t, activate_picks (frame.1 ▸ found) frame.2.1⟩
  | none => cases ran

/-- The running thread has its whole slice before it again, and threads with long slices are what they
were. -/
structure Ticks (s s' : Scheduler) : Prop where
  full : s'.Full
  steady : ∀ i t, s.threads i = some t → ∃ t', s'.threads i = some t' ∧ t.Steady t'

theorem Ticks.trans (h : Ticks s u) (h' : Ticks u s') : Ticks s s' := by
  refine ⟨h'.full, fun i t ht => ?_⟩
  obtain ⟨t₁, ht₁, first⟩ := h.steady i t ht
  obtain ⟨t', ht', second⟩ := h'.steady i t₁ ht₁
  exact ⟨t', ht', first.trans second⟩

theorem GivesWay.ticks (gives : s.GivesWay s') (full : s.Full) : Ticks s s' := by
  cases gives with
  | stays => exact ⟨full, fun i t ht => ⟨t, ht, .refl t⟩⟩
  | starts ran =>
    obtain ⟨u, threads, -, next, t, picks⟩ := run_picks ran
    exact ⟨picks.full, fun i v hv => picks.steady (threads ▸ hv)⟩
  | schedules ran =>
    cases cur : s.currentIdx with
    | none =>
      have same : s' = s := by
        unfold schedule at ran
        split_ifs at ran
        · simp only [cur] at ran
          cases ran
          rfl
        · cases ran
          rfl
      rw [same]
      exact ⟨full, fun i t ht => ⟨t, ht, .refl t⟩⟩
    | some prev =>
      obtain ⟨on, t, ht, whole⟩ := full prev cur
      obtain ⟨u, threads, -, ends⟩ := schedule_expires on cur ran
      have expired : ∀ i v, s.threads i = some v → ∃ v', u.threads i = some v' ∧ v.Steady v' := by
        intro i v hv
        rw [threads, modifyAt_threads]
        split_ifs with here
        · subst here
          cases ht.symm.trans hv
          exact ⟨t.expire, by rw [ht]; rfl, Tcb.expire_steady whole⟩
        · exact ⟨v, hv, .refl v⟩
      rcases ends with ⟨next, w, picks⟩ | ⟨idle, same⟩
      · refine ⟨picks.full, fun i v hv => ?_⟩
        obtain ⟨v', hv', first⟩ := expired i v hv
        obtain ⟨v'', hv'', second⟩ := picks.steady hv'
        exact ⟨v'', hv'', first.trans second⟩
      · refine ⟨fun i now => ?_, fun i v hv => same ▸ expired i v hv⟩
        rw [idle] at now
        cases now

end Scheduler

/-! ## Stints -/

namespace TaskOp

open Tasks

variable {s s' : Tasks} {i : Fin maxThreads} {t : Tcb} {n : Nat}

/-- `schedule` is called on the thread, which does not block: by the timer, or by `sys_yield`. -/
structure Turn (i : Fin maxThreads) (s s' : Tasks) : Prop where
  current : s.sched.currentIdx = some i
  ran : TaskOp.tick.Steps s s' ∨ TaskOp.yield.Steps s s'

/-- A step of another thread, or a step in which the thread goes on running and nobody is selected. -/
structure Aside (i : Fin maxThreads) (s s' : Tasks) : Prop where
  ran : ∃ op : TaskOp, op.Steps s s'
  goesOn : s.sched.currentIdx = some i →
    s'.sched.currentIdx = some i ∧ s'.sched.selections = s.sched.selections

/-- The thread has that many turns, the last of which ends the stint. -/
inductive Stint (i : Fin maxThreads) : Nat → Tasks → Tasks → Prop where
  | last {s s' : Tasks} (turn : Turn i s s') : Stint i 1 s s'
  | turn {n : Nat} {s s₁ s' : Tasks} (turn : Turn i s s₁) (rest : Stint i n s₁ s') : Stint i (n + 1) s s'
  | aside {n : Nat} {s s₁ s' : Tasks} (aside : Aside i s s₁) (rest : Stint i n s₁ s') : Stint i n s s'

theorem Stint.pos (stint : Stint i n s s') : 0 < n := by
  induction stint with
  | last => exact Nat.one_pos
  | turn => exact Nat.succ_pos _
  | aside _ _ ih => exact ih

theorem Steps.ticks {op : TaskOp} (step : op.Steps s s') (full : s.sched.Full) :
    s.sched.Ticks s'.sched := by
  obtain ⟨u, quiet, gives⟩ := Scheduler.quiet_absorbs.exec op s s' step.ran
  have ticks := gives.ticks (quiet.full full)
  refine ⟨ticks.full, fun i t ht => ?_⟩
  obtain ⟨t₁, ht₁, same⟩ := quiet.clocks i t ht
  obtain ⟨t', ht', steady⟩ := ticks.steady i t₁ ht₁
  exact ⟨t', ht', same.steady.trans steady⟩

theorem Turn.ticks (turn : Turn i s s') (full : s.sched.Full) : s.sched.Ticks s'.sched := by
  rcases turn.ran with step | step <;> exact step.ticks full

/-- While the thread goes on running, its clock stands still. -/
theorem Aside.clock (aside : Aside i s s') (full : s.sched.Full) (cur : s.sched.currentIdx = some i)
    (thread : s.sched.threads i = some t) :
    s'.sched.currentIdx = some i ∧ ∃ t', s'.sched.threads i = some t' ∧ t.SameClock t' := by
  obtain ⟨op, step⟩ := aside.ran
  obtain ⟨cur', same⟩ := aside.goesOn cur
  obtain ⟨u, quiet, gives⟩ := Scheduler.quiet_absorbs.exec op s s' step.ran
  refine ⟨cur', ?_⟩
  have before : u.currentIdx = some i := quiet.current.trans cur
  have unselected : s'.sched.selections = u.selections := same.trans quiet.selections.symm
  cases gives with
  | stays => exact quiet.clocks i t thread
  | schedules ran =>
    obtain ⟨v, -, selections, ⟨next, w, picks⟩ | ⟨idle, -⟩⟩ :=
      Scheduler.schedule_expires (quiet.full full i before).1 before ran
    · have longer := picks.longer
      rw [selections, unselected] at longer
      exact absurd longer (lt_irrefl _)
    · cases idle.symm.trans cur'
  | starts ran =>
    obtain ⟨v, -, selections, next, w, picks⟩ := Scheduler.run_picks ran
    have longer := picks.longer
    rw [selections, unselected] at longer
    exact absurd longer (lt_irrefl _)

/-- What is left of the slice decides about the priority. -/
theorem Turn.priority (turn : Turn i s s') (full : s.sched.Full) (thread : s.sched.threads i = some t) :
    ∃ t', s'.sched.threads i = some t' ∧ t'.priority = t.expire.priority := by
  have ran : (Scheduler.schedule s.sched).Ends s'.sched := by
    rcases turn.ran with step | step
    · exact onSched_ends (s := { s with ticks := s.ticks + 1 }) step.ran
    · exact onSched_ends step.ran
  obtain ⟨u, threads, -, ends⟩ := Scheduler.schedule_expires (full i turn.current).1 turn.current ran
  have expired : u.threads i = some t.expire := by
    rw [threads, Scheduler.modifyAt_threads, if_pos rfl, thread]
    rfl
  rcases ends with ⟨next, w, picks⟩ | ⟨-, same⟩
  · rw [picks.threads]
    by_cases here : i = next
    · subst here
      cases picks.found.symm.trans expired
      exact ⟨_, Function.update_self .., rfl⟩
    · exact ⟨_, (Function.update_of_ne here ..).trans expired, rfl⟩
  · exact ⟨_, (congrFun same i).trans expired, rfl⟩

theorem Stint.ticks (stint : Stint i n s s') (full : s.sched.Full) : s.sched.Ticks s'.sched := by
  induction stint with
  | last turn => exact turn.ticks full
  | turn turn rest ih => exact (turn.ticks full).trans (ih (turn.ticks full).full)
  | aside aside rest ih =>
    obtain ⟨op, step⟩ := aside.ran
    exact (step.ticks full).trans (ih (step.ticks full).full)

/-- A slice of one tick is used up by one turn. -/
theorem Stint.lowers (stint : Stint i n s s') (one : n = 1) (full : s.sched.Full)
    (cur : s.sched.currentIdx = some i) (thread : s.sched.threads i = some t) (slice : t.timeSlice = 1) :
    ∃ t', s'.sched.threads i = some t' ∧ t'.priority = t.priority.lower := by
  induction stint generalizing t with
  | @last s s' turn =>
    obtain ⟨-, v, hv, whole⟩ := full i cur
    cases thread.symm.trans hv
    obtain ⟨t', ht', priority⟩ := turn.priority full thread
    refine ⟨t', ht', priority.trans ?_⟩
    rw [Tcb.expire_priority, if_pos (by omega)]
  | turn turn rest => exact absurd rest.pos (by omega)
  | aside aside rest ih =>
    obtain ⟨cur₁, t₁, ht₁, same⟩ := aside.clock full cur thread
    obtain ⟨op, step⟩ := aside.ran
    obtain ⟨t', ht', priority⟩ := ih one (step.ticks full).full cur₁ ht₁ (same.timeSlice_eq.trans slice)
    exact ⟨t', ht', by rw [priority, same.priority_eq]⟩

theorem boot_full : boot.sched.Full := fun _ cur => by cases cur

theorem Run.full {cond : Tasks → TaskOp → Prop} (run : Run cond boot s) : s.sched.Full := by
  induction run with
  | start => exact boot_full
  | step op _ _ step ih => exact (step.ticks ih).full

/-- The thread has come down one level. -/
def Decayed (s : Tasks) (i : Fin maxThreads) (t : Tcb) : Prop :=
  ∃ t', s.sched.threads i = some t' ∧ t'.priority = t.priority.lower

/-- A thread that has had as many turns as its slice has ticks has come down one level exactly if the
slice is a single tick. -/
theorem decayed_iff (run : Run (fun _ _ => True) boot s) (cur : s.sched.currentIdx = some i)
    (thread : s.sched.threads i = some t) (decays : t.priority.Decays) (stint : Stint i t.timeSlice s s') :
    Decayed s' i t ↔ t.timeSlice = 1 := by
  constructor
  · rintro ⟨t', ht', lowered⟩
    by_contra long
    have two : 2 ≤ t.timeSlice := by
      have pos := stint.pos
      omega
    obtain ⟨v, hv, steady⟩ := (stint.ticks run.full).steady i t thread
    cases ht'.symm.trans hv
    exact decays.lower_ne (lowered.symm.trans (steady.priority_eq two))
  · exact fun slice => stint.lowers slice run.full cur thread slice

/-- A thread of normal priority runs, with a slice of `ticks` ticks. -/
def single (ticks : Nat) : Tasks := after boot [.add { Tcb.demo 1 with timeSlice := ticks }, .run]

theorem single_run (ticks : Nat) : Run (fun _ _ => True) boot (single ticks) :=
  Run.start.follow ⟨trivial, trivial, rfl, trivial, rfl, rfl, trivial⟩

theorem single_turn {s : Tasks} (cur : s.sched.currentIdx = some ⟨0, by decide⟩)
    (returns : (TaskOp.yield.exec s).faulted = false) :
    Turn ⟨0, by decide⟩ s (TaskOp.yield.exec s).state :=
  ⟨cur, .inr ⟨trivial, Outcome.ends_state returns⟩⟩

theorem decayed_iff_single : ∃ t, (single 1).sched.threads ⟨0, by decide⟩ = some t ∧
    (Decayed (after (single 1) [.yield]) ⟨0, by decide⟩ t ↔ t.timeSlice = 1) :=
  ⟨_, rfl, decayed_iff (single_run 1) rfl rfl (.inr (.inr rfl)) (.last (single_turn rfl (by decide)))⟩

/-- With the slice that every thread is given, five turns leave the priority what it was. -/
theorem slice_never_used_up : ∃ t s', (single defaultTimeSlice).sched.threads ⟨0, by decide⟩ = some t ∧
    t.priority.Decays ∧ Run (fun _ _ => True) boot (single defaultTimeSlice) ∧
    Stint ⟨0, by decide⟩ t.timeSlice (single defaultTimeSlice) s' ∧ ¬ Decayed s' ⟨0, by decide⟩ t := by
  refine ⟨_, after (single defaultTimeSlice) [.yield, .yield, .yield, .yield, .yield], rfl, .inr (.inr rfl),
    single_run _, ?_, ?_⟩
  · exact .turn (single_turn rfl (by decide)) (.turn (single_turn rfl (by decide))
      (.turn (single_turn rfl (by decide)) (.turn (single_turn rfl (by decide))
        (.last (single_turn rfl (by decide))))))
  · rintro ⟨t', found, lowered⟩
    have now : ((after (single defaultTimeSlice) [.yield, .yield, .yield, .yield, .yield]).sched.threads
        ⟨0, by decide⟩).map (·.priority) = some .normal := by decide
    rw [found, Option.map_some, lowered] at now
    revert now
    decide

end TaskOp

end CapsuleOS
