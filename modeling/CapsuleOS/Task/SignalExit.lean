import CapsuleOS.Task.ProcessControl

/-!
# Signals at the end of a call

The rule of the signal module is that pending signals are dispatched whenever a call ends. Only `sys_pause`
does so, and then it returns to the thread of the process that it has ended. The other calls leave pending
signals pending, and whoever is struck by one goes on.
-/
namespace CapsuleOS

open Lib

namespace Process

variable {p : Process}

/-- A signal is pending that ends the process. -/
def Owes (p : Process) : Prop := ∃ n : Fin nsig, p.pendingSignals.getLsbD n ∧ p.sigHandlers n = sigDfl

/-- The dispatcher ends a process that has such a signal, and brings no new one. -/
theorem Owes.dispatched (h : p.Owes) : p.dispatchPending.2.state = .zombie := by
  obtain ⟨n, set, handler⟩ := h
  have fatal : p.sigHandlers n ≠ sigIgn := by
    rw [handler]
    decide
  rw [dispatchPending_ends set fatal]
  rfl

theorem dispatchPending_handlers (p : Process) : p.dispatchPending.2.sigHandlers = p.sigHandlers := by
  rcases p.dispatchPending_cases with ⟨-, eq⟩ | ⟨-, eq⟩ <;> rw [eq]
  rfl

/-- What is owed after the dispatch was owed before. -/
theorem owes_of_dispatched (h : p.dispatchPending.2.Owes) : p.Owes := by
  obtain ⟨n, set, handler⟩ := h
  exact ⟨n, p.dispatchPending_dispatched.fewer n set, by rwa [dispatchPending_handlers] at handler⟩

end Process

/-- A call of a process: one of those that concern processes and threads, or another one, which changes at
most the files of a process. -/
inductive Syscall where
  | proc (op : ProcOp)
  | files (pid : Nat) (fdTable : Fin fdTableSize → Option FdEntry) (nextFd : Nat)

namespace Syscall

open Os

def perform : Syscall → OsM Unit
  | .proc op => op.perform
  | .files pid fdTable nextFd => updateProcess pid fun p => { p with fdTable, nextFd }

def Enabled (s : Os) : Syscall → Prop
  | .proc op => op.Enabled s
  | .files _ _ _ => True

def system : Stepper Os Status Syscall := ⟨perform, Enabled⟩

variable {s s' : Os} {call : Syscall} {u : Tcb} {p p' : Process}

theorem sound_step (step : system.Steps call s s') (sound : s.Sound) : s'.Sound := by
  cases call with
  | proc op => exact (ProcOp.kept ⟨step.enabled, step.ran⟩ sound).sound
  | files pid fdTable nextFd =>
    have stays : Kept True True s (updateProcess pid (fun p => { p with fdTable, nextFd }) s).state :=
      updateProcess_stays (by intro; rfl) (by intro; rfl) (by intro; rfl) s sound
    have ran : (updateProcess pid (fun p => { p with fdTable, nextFd }) s).Ends s' := step.ran
    rw [ran.state_eq] at stays
    exact stays.sound

theorem sound_run (run : system.Run (fun _ _ => True) Os.boot s) : s.Sound :=
  run.invariant boot_sound fun _ _ _ sound _ step => sound_step step sound

/-- The call is over for a thread of the process, which runs: the call was its own, or it waited in one and
has been selected now. -/
structure ComesBack (s s' : Os) (u : Tcb) (p p' : Process) : Prop where
  runs : s'.sched.getCurrentThread = some u
  still : s'.findProcess u.processId = some p'
  was : s.findProcess u.processId = some p

/-- The process has a signal that ends it, at the end of the call or when its `sys_pause` begins. -/
def Struck (s : Os) (call : Syscall) (p p' : Process) : Prop :=
  p'.Owes ∨ call = .proc .pause ∧ s.callerPid = some p.id ∧ p.Owes

/-- The process is ended, and none of its threads is left to go on. -/
def TakesEffect (s' : Os) (p' : Process) : Prop := p'.state = .zombie ∧ s'.AllDead p'.id

/-- Whoever a call returns to goes on. -/
theorem ComesBack.goes_on (h : ComesBack s s' u p p') (sound' : s'.Sound) : ¬ s'.AllDead p'.id := by
  intro dead
  obtain ⟨i, cur, thread⟩ := Option.bind_eq_some_iff.mp h.runs
  obtain ⟨pid, alive⟩ := sound'.lively.current i cur
  have one := (Scheduler.fates_of_thread thread).symm.trans alive
  rw [Option.some_inj, Prod.mk.injEq] at one
  rw [(findProcess_mem h.still).2, one.1] at dead
  cases dead i false alive

theorem ComesBack.nonzero (h : ComesBack s s' u p p') (sound' : s'.Sound) : u.processId ≠ 0 := by
  obtain ⟨i, -, thread⟩ := Option.bind_eq_some_iff.mp h.runs
  exact (sound'.thread _ _ _ (Scheduler.fates_of_thread thread)).1

/-- The process after the call. -/
theorem ComesBack.unique (h : ComesBack s s' u p p') (sound' : s'.Sound) {q : Process}
    (mem : q ∈ s'.processes.occupants) (same : q.id = p.id) : q = p' := by
  have here := findProcess_mem h.still
  have owner := (findProcess_mem h.was).2
  refine sound'.unique mem here.1 (same.trans (owner.trans here.2.symm)) ?_
  rw [same, owner]
  exact h.nonzero sound'

/-- The process before the call. -/
theorem ComesBack.old (h : ComesBack s s' u p p') (sound : s.Sound) (sound' : s'.Sound) {q : Process}
    (mem : q ∈ s.processes.occupants) (same : q.id = p'.id) : q = p := by
  have here := findProcess_mem h.was
  have still := (findProcess_mem h.still).2
  refine sound.unique mem here.1 (same.trans (still.trans here.2.symm)) ?_
  rw [same, still]
  exact h.nonzero sound'

theorem ComesBack.of_carries {may : Fin nsig → Nat → Nat → Prop} (h : ComesBack s s' u p p')
    (sound' : s'.Sound) (carries : Carries may s s') : p'.state = p.state := by
  obtain ⟨q, mem, tended⟩ := carries.kept p (findProcess_mem h.was).1
  rw [← h.unique sound' mem tended.id_eq]
  exact tended.state_eq

/-- A call that only takes processes out of the table. -/
theorem ComesBack.of_subset (h : ComesBack s s' u p p') (sound : s.Sound) (sound' : s'.Sound)
    (sub : ∀ q ∈ s'.processes.occupants, q ∈ s.processes.occupants) : p' = p :=
  h.old sound sound' (sub p' (findProcess_mem h.still).1) rfl

theorem wait_subset {pid : Int} (waits : s'.processes = s.processes ∨ ∃ caller q,
      s.callerPid = some caller ∧ reap caller pid s = .ok (some q) s') :
    ∀ q ∈ s'.processes.occupants, q ∈ s.processes.occupants := by
  rcases waits with same | ⟨caller, q, -, took⟩
  · rw [same]
    exact fun q mem => mem
  · unfold reap at took
    split at took
    · rename_i taken
      cases took
      exact fun r mem => (Slots.take?_perm taken).mem_iff.mpr (List.mem_cons_of_mem _ mem)
    · cases took

/-- A call that changes one process. -/
theorem ComesBack.of_modify (h : ComesBack s s' u p p') (sound : s.Sound) (sound' : s'.Sound) {pid : Nat}
    {f : Process → Process} (id_eq : ∀ p, (f p).id = p.id)
    (same : s'.processes = s.processes.modify (·.id == pid) f) :
    p' = if pid = p.id then f p else p := by
  have here := (findProcess_mem h.was).2
  split_ifs with own
  · subst own
    have found : s'.findProcess p.id = (s.findProcess p.id).map fun a => if a.id == p.id then f a else a := by
      rw [findProcess, same]
      exact Slots.find?_modify_sub (fun _ here => here) (fun a here => by rwa [id_eq]) s.processes
    rw [here, h.was, h.still, Option.map_some, Option.some_inj] at found
    rwa [if_pos (by simpa using here)] at found
  · rcases mem_modify (same ▸ (findProcess_mem h.still).1) with stays | ⟨q, mem, changed, eq⟩
    · exact h.old sound sound' stays rfl
    · have one := h.old sound sound' mem (by rw [eq, id_eq])
      exact absurd (changed.symm.trans (congrArg Process.id one)) own

/-- `sys_pause` dispatches the signals of the caller, unless that is a zombie already. -/
theorem ComesBack.of_pause (h : ComesBack s s' u p p') (sound : s.Sound) (sound' : s'.Sound)
    (own : s.callerPid = some p.id) (ran : (Os.pause s).Ends s') :
    p.state = .zombie ∧ p' = p ∨ p' = p.dispatchPending.2 := by
  obtain ⟨t, cur, owner⟩ := Option.map_eq_some_iff.mp own
  have found : s.findProcess t.processId = some p := by
    rw [owner, (findProcess_mem h.was).2]
    exact h.was
  unfold Os.pause at ran
  rw [Prog.bind_ok (show currentProcessId s = .ok t.processId s by simp only [currentProcessId, cur]),
    Prog.bind_ok (show lookupProcess t.processId s = .ok p s by simp only [lookupProcess, found])] at ran
  by_cases zombie : p.state = .zombie
  · rw [if_pos zombie] at ran
    cases ran
    exact .inl ⟨zombie, h.of_subset sound sound' fun q mem => mem⟩
  · rw [if_neg zombie] at ran
    have same : s'.processes = s.processes.modify (·.id == t.processId) fun p => p.dispatchPending.2 := by
      rcases Prog.bind_ends ran with ⟨e, bad⟩ | ⟨v, s₁, ok, rest⟩
      · cases bad
      · cases ok
        split_ifs at rest
        · cases rest
          rfl
        · obtain ⟨sched, -, rfl⟩ := onSched_ends rest
          rfl
    have changed := h.of_modify sound sound' (fun q => q.dispatchPending_frame.1) same
    rw [if_pos owner] at changed
    exact .inr changed

/-- What makes a process a zombie: an exit of its own, its own `sys_pause`, or `PROC_MGMT_EXIT`. -/
def Ends (s : Os) (pid : Nat) (call : Syscall) : Prop :=
  s.callerPid = some pid ∧ (call = .proc .pause ∨ ∃ code, call = .proc (.exit code)) ∨
    ∃ code, call = .proc (.procMgmtExit pid code)

theorem ComesBack.of_same (state : p'.state = p.state) (other : ¬ Ends s p.id call) :
    p'.state = .zombie ↔ p.state = .zombie ∨ Ends s p.id call := by
  rw [state]
  exact ⟨.inl, fun either => either.resolve_right other⟩

/-- Nothing is dispatched at the end of a call but by `sys_pause`. -/
theorem ComesBack.zombie_iff (h : ComesBack s s' u p p') (step : system.Steps call s s') (sound : s.Sound)
    (struck : Struck s call p p') : p'.state = .zombie ↔ p.state = .zombie ∨ Ends s p.id call := by
  have sound' := sound_step step sound
  cases call with
  | files pid fdTable nextFd =>
    refine of_same ?_ (by simp [Ends])
    have ran : (updateProcess pid (fun p => { p with fdTable, nextFd }) s).Ends s' := step.ran
    have carries : Carries (fun _ _ _ => False) s
        (updateProcess pid (fun p => { p with fdTable, nextFd }) s).state :=
      carries_updateProcess fun p _ _ => ⟨rfl, rfl, rfl, rfl, fun _ => .inl⟩
    rw [ran.state_eq] at carries
    exact h.of_carries sound' carries
  | proc op =>
    have ran : (op.perform s).Ends s' := step.ran
    by_cases plain : op.Plain = true
    · have carries := ProcOp.carries_plain sound plain
      rw [ran.state_eq] at carries
      refine of_same (h.of_carries sound' carries) ?_
      rintro (⟨-, eq | ⟨code, eq⟩⟩ | ⟨code, eq⟩) <;> (cases eq; cases plain)
    · cases op with
      | exit code =>
        rcases ProcOp.exit_processes ran with ⟨nobody, same⟩ | ⟨pid, caller, same⟩
        · refine of_same ?_ (by simp [Ends, nobody])
          rw [h.of_subset sound sound' (by rw [same]; exact fun q mem => mem)]
        · have changed := h.of_modify sound sound' (f := (·.toZombie code)) (by intro; rfl) same
          split_ifs at changed with own
          · refine iff_of_true (by rw [changed]; rfl) (.inr (.inl ⟨caller.trans (congrArg some own), ?_⟩))
            exact .inr ⟨code, rfl⟩
          · exact of_same (by rw [changed]) (by simp [Ends, caller, own])
      | wait4 pid =>
        refine of_same ?_ (by simp [Ends])
        rw [h.of_subset sound sound' (wait_subset (ProcOp.wait4_processes (Prog.map_ends ran)))]
      | procMgmtWait pid =>
        refine of_same ?_ (by simp [Ends])
        rw [h.of_subset sound sound' (wait_subset (ProcOp.procMgmtWait_processes (Prog.map_ends ran)))]
      | pause =>
        by_cases own : s.callerPid = some p.id
        · refine iff_of_true ?_ (.inr (.inl ⟨own, .inl rfl⟩))
          rcases h.of_pause sound sound' own ran with ⟨zombie, rfl⟩ | dispatched
          · exact zombie
          · have owes : p.Owes := by
              rcases struck with after | ⟨-, -, before⟩
              · exact Process.owes_of_dispatched (dispatched ▸ after)
              · exact before
            rw [dispatched]
            exact owes.dispatched
        · refine of_same ?_ (by simp [Ends, own])
          rcases ProcOp.pause_processes ran with same | ⟨pid, q, caller, -, -, same⟩
          · rw [h.of_subset sound sound' (by rw [same]; exact fun q mem => mem)]
          · have changed := h.of_modify sound sound' (fun q => q.dispatchPending_frame.1) same
            rw [changed, if_neg fun eq => own (caller.trans (congrArg some eq))]
      | procMgmtExit pid code =>
        by_cases own : pid = p.id
        · subst own
          refine iff_of_true ?_ (.inr (.inr ⟨code, rfl⟩))
          have marked := (ProcOp.procMgmtExit_marked sound ran).2 p (findProcess_mem h.was).1
            (by rw [(findProcess_mem h.was).2]; exact h.nonzero sound') rfl
          rw [← h.unique sound' marked rfl]
          rfl
        · refine of_same ?_ (by simp [Ends, own])
          rcases (ProcOp.procMgmtExit_marked sound ran).1.source p' (findProcess_mem h.still).1 with
            old | ⟨q, mem, here, rfl⟩
          · rw [h.old sound sound' old rfl]
          · exact absurd (here.symm.trans (congrArg Process.id (h.old sound sound' mem rfl))) own
      | _ => exact absurd rfl plain

/-- No signal takes effect at the end of a call: the process goes on, and it is a zombie only if it was one
before, or by its own exit or `sys_pause`, or by `PROC_MGMT_EXIT` in that very call. -/
theorem signals_without_effect (run : system.Run (fun _ _ => True) Os.boot s)
    (step : system.Steps call s s') (returns : ComesBack s s' u p p') (struck : Struck s call p p') :
    ¬ TakesEffect s' p' ∧ (p'.state = .zombie ↔ p.state = .zombie ∨ Ends s p.id call) := by
  have sound := sound_run run
  exact ⟨fun effect => returns.goes_on (sound_step step sound) effect.2,
    returns.zombie_iff step sound struck⟩

/-- A process that runs raises a signal that it has not set to be ignored. -/
theorem raise_returns : ∃ s s' u p p', system.Run (fun _ _ => True) Os.boot s ∧
    system.Steps (.proc (.raise 9)) s s' ∧ ComesBack s s' u p p' ∧ p'.Owes ∧ p'.state = .initial := by
  have run : system.Run (fun _ _ => True) Os.boot
      (system.after Os.boot [.proc (.launch .done), .proc (.task .run)]) :=
    Stepper.Run.start.follow ⟨trivial, trivial, by decide, trivial, rfl, by decide, trivial⟩
  refine ⟨_, _, _, _, _, run, ⟨trivial, Outcome.ends_state (by decide)⟩, ⟨rfl, rfl, rfl⟩, ?_, rfl⟩
  exact ⟨⟨8, by decide⟩, by decide, rfl⟩

theorem signals_without_effect_raise : ∃ s s' u p p', system.Run (fun _ _ => True) Os.boot s ∧
    ComesBack s s' u p p' ∧ p'.Owes ∧ ¬ TakesEffect s' p' := by
  obtain ⟨s, s', u, p, p', run, step, returns, owes, -⟩ := raise_returns
  exact ⟨s, s', u, p, p', run, returns, owes, (signals_without_effect run step returns (.inl owes)).1⟩

/-- The signal is pending, the process is no zombie. -/
theorem raised_signal_pending : ¬ ∀ s call s' u p p', system.Run (fun _ _ => True) Os.boot s →
    system.Steps call s s' → ComesBack s s' u p p' → Struck s call p p' → TakesEffect s' p' := by
  intro claim
  obtain ⟨s, s', u, p, p', run, step, returns, owes, alive⟩ := raise_returns
  have zombie := (claim s _ s' u p p' run step returns (.inl owes)).1
  cases alive.symm.trans zombie

end Syscall

end CapsuleOS
