import CapsuleOS.Task.Process

/-!
# Frames of the process calls

What the dispatcher of signals makes of a process. Then the calls: a relation between the states before and after a
call holds of the call if it holds of the few things that the call does. The rules say what these are, one rule a call.
-/
namespace CapsuleOS

open Lib

/-! ## Pending signals -/

namespace Process

variable {p : Process} {pending : BitVec nsig} {ns : List (Fin nsig)}

/-- Every signal that is pending is ignored. -/
def Calm (p : Process) : Prop := ∀ n : Fin nsig, p.pendingSignals.getLsbD n → p.sigHandlers n = sigIgn

theorem clearSignal_getLsbD (m n : Fin nsig) :
    (p.clearSignal m).pendingSignals.getLsbD n = (p.pendingSignals.getLsbD n && decide (n ≠ m)) := by
  have bit : (decide (n < m) || !decide (n.val - m.val = 0)) = decide (n ≠ m) := by
    grind
  simp [clearSignal, bit]

/-- Ignored signals are cleared one by one. -/
theorem dispatchLoop_ignores (calm : ∀ n ∈ ns, pending.getLsbD n → p.sigHandlers n = sigIgn) :
    ∃ left, dispatchLoop pending ns p = (false, { p with pendingSignals := left }) ∧
      ∀ n : Fin nsig, left.getLsbD n → p.pendingSignals.getLsbD n ∧ (n ∈ ns → ¬ pending.getLsbD n) := by
  induction ns generalizing p with
  | nil => exact ⟨p.pendingSignals, rfl, fun n set => ⟨set, by simp⟩⟩
  | cons m ns ih =>
    rw [dispatchLoop]
    have later : ∀ n ∈ ns, pending.getLsbD n → p.sigHandlers n = sigIgn :=
      fun n mem => calm n (List.mem_cons_of_mem _ mem)
    split_ifs with set ignored
    · obtain ⟨left, scan, bits⟩ := ih (p := p.clearSignal m) later
      refine ⟨left, scan, fun n bit => ?_⟩
      obtain ⟨old, rest⟩ := bits n bit
      rw [clearSignal_getLsbD] at old
      grind
    · exact absurd (calm m List.mem_cons_self set) ignored
    · obtain ⟨left, scan, bits⟩ := ih later
      refine ⟨left, scan, fun n bit => ?_⟩
      have := bits n bit
      grind

/-- The first signal that is not ignored ends the process. -/
theorem dispatchLoop_delivers {n : Fin nsig} (mem : n ∈ ns) (set : pending.getLsbD n)
    (fatal : p.sigHandlers n ≠ sigIgn) :
    dispatchLoop pending ns p = (true, { p.toZombie sigDflKillExit with pendingSignals := 0 }) := by
  induction ns generalizing p with
  | nil => cases mem
  | cons m ns ih =>
    rw [dispatchLoop]
    split_ifs with here ignored
    · have later : n ∈ ns := by grind
      exact ih later fatal
    · rfl
    · have later : n ∈ ns := by grind
      exact ih later fatal

theorem dispatchPending_ends {n : Fin nsig} (set : p.pendingSignals.getLsbD n) (fatal : p.sigHandlers n ≠ sigIgn) :
    p.dispatchPending = (true, { p.toZombie sigDflKillExit with pendingSignals := 0 }) := by
  have some_set : p.pendingSignals ≠ 0 := by
    intro zero
    rw [zero] at set
    simp at set
  rw [dispatchPending, if_neg some_set]
  exact dispatchLoop_delivers (List.mem_finRange n) set fatal

theorem Calm.dispatchPending_clears (h : p.Calm) :
    p.dispatchPending = (false, { p with pendingSignals := 0 }) := by
  unfold dispatchPending
  split_ifs with zero
  · rw [← zero]
  · obtain ⟨left, scan, bits⟩ := dispatchLoop_ignores fun n (_ : n ∈ List.finRange nsig) => h n
    have clear : left = 0 := by
      refine BitVec.eq_of_getLsbD_eq fun i lt => ?_
      by_contra set
      have bit : left.getLsbD i := by simpa using set
      have old := bits ⟨i, lt⟩ bit
      exact old.2 (List.mem_finRange _) old.1
    rw [scan, clear]

/-- All that the dispatcher does. -/
theorem dispatchPending_cases (p : Process) :
    p.Calm ∧ p.dispatchPending = (false, { p with pendingSignals := 0 }) ∨
    (∃ n : Fin nsig, p.pendingSignals.getLsbD n ∧ p.sigHandlers n ≠ sigIgn) ∧
      p.dispatchPending = (true, { p.toZombie sigDflKillExit with pendingSignals := 0 }) := by
  by_cases fatal : ∃ n : Fin nsig, p.pendingSignals.getLsbD n ∧ p.sigHandlers n ≠ sigIgn
  · obtain ⟨n, set, other⟩ := fatal
    exact .inr ⟨⟨n, set, other⟩, dispatchPending_ends set other⟩
  · have calm : p.Calm := fun n set => by_contra fun other => fatal ⟨n, set, other⟩
    exact .inl ⟨calm, calm.dispatchPending_clears⟩

end Process

/-! ## Rules -/

namespace Os

variable {R : Os → Os → Prop} [Std.Refl R]

theorem within_currentProcessId : Prog.Within R currentProcessId := by
  intro s
  unfold currentProcessId
  split <;> exact Std.Refl.refl s

theorem within_lookupProcess (pid : Nat) : Prog.Within R (lookupProcess pid) := by
  intro s
  unfold lookupProcess
  split <;> exact Std.Refl.refl s

variable [IsTrans Os R]

section Signals

variable {pid sig handler : Nat}

theorem within_sigactionSet (write : ∀ pid (idx : Fin nsig), handler = sigDfl ∨ handler = sigIgn →
    Prog.Within R (updateProcess pid fun p => { p with sigHandlers := Function.update p.sigHandlers idx handler })) :
    Prog.Within R (sigactionSet sig handler) := by
  unfold sigactionSet
  split_ifs with range other
  · exact .throw _
  · have accepted : handler = sigDfl ∨ handler = sigIgn := by tauto
    exact within_currentProcessId.bind fun caller => (within_lookupProcess caller).bind fun _ =>
      (write caller _ accepted).bind fun _ => .pure _
  · exact .throw _

theorem within_signalSend (write : Prog.Within R (updateProcess pid (·.raiseSignal sig))) :
    Prog.Within R (signalSend pid sig) := by
  unfold signalSend
  split_ifs
  · exact .throw _
  · exact (within_lookupProcess pid).bind fun _ => write

variable (send : ∀ pid, Prog.Within R (signalSend pid sig))
include send

theorem within_raise : Prog.Within R (raise sig) := by
  unfold raise
  split_ifs
  · exact .throw _
  · refine within_currentProcessId.bind fun caller => (send caller).bind fun _ => Prog.Within.get.bind fun s => ?_
    split_ifs
    · exact .throw _
    · exact .pure ()

theorem within_kill (pid : Int) : Prog.Within R (kill pid sig) := by
  refine within_currentProcessId.bind fun caller => ?_
  split_ifs
  · exact .throw _
  · refine Prog.Within.get.bind fun s => (Prog.Within.forEach fun child _ => send child).bind fun _ => ?_
    split_ifs
    · exact .throw _
    · exact .pure ()
  · refine Prog.Within.get.bind fun s => ?_
    dsimp only
    split_ifs
    · exact send _
    · refine (within_lookupProcess _).bind fun p => ?_
      split_ifs
      · exact .throw _
      · exact send _

end Signals

/-- A relation to which the threads do not matter. -/
structure ThreadFree (R : Os → Os → Prop) : Prop where
  tasks : ∀ (s : Os) (tasks : Tasks), R s { s with tasks }
  threadId : ∀ (s : Os) (threadIdCounter : Nat), R s { s with threadIdCounter }

namespace ThreadFree

variable (free : ThreadFree R)
include free

omit [Std.Refl R] [IsTrans Os R] in
theorem onTasks {α : Type} (m : TaskM α) : Prog.Within R (onTasks m) := by
  intro s
  unfold Os.onTasks Prog.zoom
  cases m s.tasks <;> exact free.tasks s _

omit [IsTrans Os R] in
theorem newThread (e : Option Status) (pid : Nat) : Prog.Within R (newThread e pid) := by
  intro s
  cases e with
  | some e => exact Std.Refl.refl s
  | none => exact free.threadId s _

theorem threadCreate (pid : Nat) (e : Option Status) : Prog.Within R (threadCreate pid e) :=
  (within_lookupProcess pid).bind fun p => (free.newThread e p.id).bind fun _ => free.onTasks _

theorem exit {code : Int} (mark : ∀ pid, Prog.Within R (markProcessZombie pid code)) :
    Prog.Within R (exit code) := by
  refine Prog.Within.get.bind fun s => ?_
  cases s.sched.getCurrentThread with
  | some t => exact (mark t.processId).bind fun _ => free.onTasks _
  | none => exact free.onTasks _

theorem pause (dispatch : ∀ pid, Prog.Within R (updateProcess pid fun p => p.dispatchPending.2)) :
    Prog.Within R pause := by
  refine within_currentProcessId.bind fun caller => (within_lookupProcess caller).bind fun p => ?_
  split_ifs
  · exact .pure ()
  · refine (dispatch caller).bind fun _ => ?_
    split_ifs
    · exact .pure ()
    · exact free.onTasks _

variable (create : ∀ parentPid e, Prog.Within R (allocateProcess parentPid e))
include create

theorem launch (parentPid : Nat) (last : LaunchEnd) : Prog.Within R (launch parentPid last) := by
  cases last with
  | early e => exact .throw e
  | init e => exact create parentPid (some e)
  | memory e => exact (create parentPid none).bind fun _ => .throw e
  | argv e =>
    exact (create parentPid none).bind fun pid => (free.newThread none pid).bind fun _ => .throw e
  | done =>
    exact (create parentPid none).bind fun pid => (free.newThread none pid).bind fun _ =>
      (free.onTasks _).bind fun _ => .pure pid

theorem spawn (last : LaunchEnd) : Prog.Within R (spawn last) :=
  within_currentProcessId.bind fun caller =>
    (within_lookupProcess caller).bind fun _ => free.launch create caller last

end ThreadFree

end Os

end CapsuleOS
