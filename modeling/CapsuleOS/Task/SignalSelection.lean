import CapsuleOS.Task.SignalExit

/-!
# The signal that is delivered

`dispatch_pending` scans the word that was pending when it began, and clears bits of the live one. It ends the process
if a pending signal has the default disposition, and else clears them all. There are only the two dispositions, since
`sigaction` accepts no other.
-/
namespace CapsuleOS

open Lib

namespace Process

variable {p : Process}

instance : Decidable p.Owes :=
  inferInstanceAs (Decidable (∃ n : Fin nsig, p.pendingSignals.getLsbD n ∧ p.sigHandlers n = sigDfl))

/-- The disposition of every signal is one that `sigaction` accepts. -/
def Registered (p : Process) : Prop := ∀ n : Fin nsig, p.sigHandlers n = sigDfl ∨ p.sigHandlers n = sigIgn

end Process

namespace Os

/-- `true` if a signal has ended the process. -/
def dispatchPending (pid : Nat) : OsM Bool := do
  let p ← lookupProcess pid
  updateProcess pid fun p => p.dispatchPending.2
  return p.dispatchPending.1

variable {s : Os} {pid : Nat} {p : Process}

theorem lookupProcess_found (found : s.findProcess pid = some p) : lookupProcess pid s = .ok p s := by
  simp only [lookupProcess, found]

theorem dispatchPending_found (found : s.findProcess pid = some p) : dispatchPending pid s =
    .ok p.dispatchPending.1
      { s with processes := s.processes.modify (·.id == pid) fun p => p.dispatchPending.2 } := by
  unfold dispatchPending
  rw [Prog.bind_ok (lookupProcess_found found)]
  rfl

/-- A round of `sys_pause`. -/
theorem pause_dispatches : pause = (do
    let caller ← currentProcessId
    let p ← lookupProcess caller
    if p.state = .zombie then pure ()
    else
      let ended ← dispatchPending caller
      if ended then pure () else onSched Scheduler.schedule) := by
  funext s
  unfold pause
  rw [Prog.bind_apply, Prog.bind_apply]
  cases currentProcessId s with
  | err e s => rfl
  | fault s => rfl
  | ok caller s =>
    cases found : s.findProcess caller with
    | none => simp only [Prog.bind_apply, lookupProcess, found]
    | some p =>
      simp only [Prog.bind_ok (lookupProcess_found found)]
      by_cases zombie : p.state = .zombie
      · rw [if_pos zombie, if_pos zombie]
      · rw [if_neg zombie, if_neg zombie, Prog.bind_ok (dispatchPending_found found)]
        rfl

end Os

/-! ## Two dispositions -/

namespace Process

variable {p : Process}

/-- With two dispositions the signals that end the process are those with the default one. -/
theorem Registered.calm_iff (h : p.Registered) : p.Calm ↔ ¬ p.Owes := by
  constructor
  · rintro calm ⟨n, set, handler⟩
    rw [calm n set] at handler
    cases handler
  · intro none_owed n set
    exact (h n).resolve_left fun handler => none_owed ⟨n, set, handler⟩

theorem Registered.dispatchPending_eq (h : p.Registered) : p.dispatchPending =
    (decide p.Owes, if p.Owes then { p.toZombie sigDflKillExit with pendingSignals := 0 }
      else { p with pendingSignals := 0 }) := by
  by_cases owes : p.Owes
  · have ⟨n, set, handler⟩ := owes
    rw [if_pos owes, decide_eq_true owes]
    refine dispatchPending_ends set ?_
    rw [handler]
    decide
  · rw [if_neg owes, decide_eq_false owes]
    exact (h.calm_iff.mpr owes).dispatchPending_clears

end Process

/-! ## Tables of dispositions -/

/-- A property of a process that the calls keep: a new process has it, and whatever a call writes into one. -/
structure Process.Stable (P : Process → Prop) : Prop where
  dummy : P .newDummy
  init : ∀ id parentPid, P (.init id parentPid)
  toZombie : ∀ p code, P p → P (p.toZombie code)
  raiseSignal : ∀ p sig, P p → P (p.raiseSignal sig)
  sigaction : ∀ (p : Process) (idx : Fin nsig) (handler : Nat), handler = sigDfl ∨ handler = sigIgn → P p →
    P { p with sigHandlers := Function.update p.sigHandlers idx handler }
  dispatched : ∀ p, P p → P p.dispatchPending.2

namespace Os

variable {P : Process → Prop} {s s' : Os}

/-- Every process has the property. -/
def Every (P : Process → Prop) (s : Os) : Prop := ∀ p ∈ s.processes.occupants, P p

def KeepsEvery (P : Process → Prop) (s s' : Os) : Prop := s.Every P → s'.Every P

instance : Std.Refl (KeepsEvery P) := ⟨fun _ every => every⟩

instance : IsTrans Os (KeepsEvery P) := ⟨fun _ _ _ first second every => second (first every)⟩

theorem keepsEvery_of_subset (sub : ∀ p ∈ s'.processes.occupants, p ∈ s.processes.occupants) :
    KeepsEvery P s s' := fun every p mem => every p (sub p mem)

theorem keepsEvery_threadFree : ThreadFree (KeepsEvery P) where
  tasks _ _ := keepsEvery_of_subset fun _ mem => mem
  threadId _ _ := keepsEvery_of_subset fun _ mem => mem

theorem keepsEvery_updateProcess {f : Process → Process} (pid : Nat) (keep : ∀ p, P p → P (f p)) :
    Prog.Within (KeepsEvery P) (updateProcess pid f) := by
  intro s every p mem
  rcases mem_modify mem with old | ⟨q, mem_q, -, rfl⟩
  · exact every p old
  · exact keep q (every q mem_q)

theorem keepsEvery_insert {processes : Slots Process maxProcesses} {new : Process} {counter : Nat}
    (put : s.processes.insert? new = some processes) (holds : P new) :
    KeepsEvery P s { s with processes, processIdCounter := counter } := by
  intro every p mem
  rcases List.mem_cons.mp ((Slots.insert?_perm put).mem_iff.mp mem) with rfl | old
  · exact holds
  · exact every p old

variable (stable : Process.Stable P)

section Calls
include stable

theorem keepsEvery_allocateProcess (parentPid : Nat) (e : Option Status) :
    Prog.Within (KeepsEvery P) (allocateProcess parentPid e) := by
  intro s
  unfold allocateProcess
  cases e with
  | some e =>
    cases put : s.processes.insert? Process.newDummy with
    | none => exact Std.Refl.refl s
    | some processes => exact keepsEvery_insert put stable.dummy
  | none =>
    cases put : s.processes.insert? (Process.init s.processIdCounter parentPid) with
    | none => exact Std.Refl.refl s
    | some processes => exact keepsEvery_insert put (stable.init _ _)

theorem keepsEvery_toZombie (code : Int) (pid : Nat) :
    Prog.Within (KeepsEvery P) (markProcessZombie pid code) :=
  keepsEvery_updateProcess pid fun p => stable.toZombie p code

theorem keepsEvery_signalSend (sig pid : Nat) : Prog.Within (KeepsEvery P) (signalSend pid sig) :=
  within_signalSend (keepsEvery_updateProcess pid fun p => stable.raiseSignal p sig)

theorem keepsEvery_step {op : ProcOp} (step : ProcOp.system.Steps op s s') : KeepsEvery P s s' := by
  have ran : (op.perform s).Ends s' := step.ran
  have alloc := keepsEvery_allocateProcess stable
  have launch : ∀ last, Prog.Within (KeepsEvery P) (launch 0 last) := keepsEvery_threadFree.launch alloc 0
  have spawn : ∀ last, Prog.Within (KeepsEvery P) (spawn last) := keepsEvery_threadFree.spawn alloc
  have within : KeepsEvery P s (op.perform s).state := by
    cases op with
    | task op => exact keepsEvery_threadFree.onTasks _ s
    | launch last => exact ((launch last).bind fun _ => Prog.Within.pure ()) s
    | spawn last => exact ((spawn last).bind fun _ => Prog.Within.pure ()) s
    | exec last => exact ((launch last).bind fun _ => keepsEvery_threadFree.onTasks _) s
    | execve last => exact ((spawn last).bind fun _ => keepsEvery_threadFree.onTasks _) s
    | processCreate e => exact ((alloc 0 e).bind fun _ => Prog.Within.pure ()) s
    | procMgmtCreate parentPid e => exact ((alloc parentPid e).bind fun _ => Prog.Within.pure ()) s
    | threadCreate pid e => exact keepsEvery_threadFree.threadCreate pid e s
    | exit code => exact keepsEvery_threadFree.exit (keepsEvery_toZombie stable code) s
    | fault => exact keepsEvery_threadFree.onTasks _ s
    | procMgmtExit pid code =>
      exact ((within_lookupProcess pid).bind fun _ => keepsEvery_toZombie stable code pid) s
    | wait4 pid =>
      rw [ran.state_eq]
      exact keepsEvery_of_subset (Syscall.wait_subset (ProcOp.wait4_processes (Prog.map_ends ran)))
    | procMgmtWait pid =>
      rw [ran.state_eq]
      exact keepsEvery_of_subset (Syscall.wait_subset (ProcOp.procMgmtWait_processes (Prog.map_ends ran)))
    | sigaction sig handler =>
      refine ((within_sigactionSet fun caller idx accepted => ?_).bind fun _ => Prog.Within.pure ()) s
      exact keepsEvery_updateProcess caller fun p => stable.sigaction p idx handler accepted
    | raise sig => exact within_raise (keepsEvery_signalSend stable sig) s
    | kill pid sig => exact within_kill (keepsEvery_signalSend stable sig) pid s
    | pause => exact keepsEvery_threadFree.pause (keepsEvery_updateProcess · stable.dispatched) s
  rwa [ran.state_eq] at within

/-- A property that the calls keep holds of every process in every run. -/
theorem every_run (run : ProcOp.system.Run (fun _ _ => True) Os.boot s) : s.Every P := by
  refine run.invariant ?_ fun op s s' every _ step => keepsEvery_step stable step every
  intro p mem
  rw [Os.boot, Slots.occupants_empty] at mem
  cases mem

end Calls

end Os

theorem Process.registered_stable : Process.Stable Process.Registered where
  dummy _ := .inl rfl
  init _ _ _ := .inl rfl
  toZombie _ _ h := h
  raiseSignal _ _ h := h
  sigaction p idx handler accepted h n := by
    simp only [Function.update_apply]
    split_ifs
    · exact accepted
    · exact h n
  dispatched p h n := by
    rw [dispatchPending_handlers]
    exact h n

/-! ## The dispatch -/

/-- `dispatch_pending` for every pending set and every table of dispositions, and every run has only such tables. If a
pending signal has the default disposition, then the process becomes a zombie with exit status -1. Otherwise the call
returns `false`. Nothing else changes, but no signal is left pending. -/
theorem dispatch_pending_selects :
    (∀ s, ProcOp.system.Run (fun _ _ => True) Os.boot s → s.Every Process.Registered) ∧
    ∀ (s : Os) (pid : Nat) (p : Process), s.findProcess pid = some p → p.Registered →
      ∃ i s', Os.dispatchPending pid s = .ok (decide p.Owes) s' ∧
        s.processes.at? i = some p ∧
        s'.processes.at? i = some (if p.Owes then
            { p with state := .zombie, exitStatus := some (-1), pendingSignals := 0 }
          else { p with pendingSignals := 0 }) ∧
        (∀ j, j ≠ i → s'.processes.at? j = s.processes.at? j) ∧
        s' = { s with processes := s'.processes } := by
  refine ⟨fun s run => Os.every_run Process.registered_stable run, fun s pid p found registered => ?_⟩
  obtain ⟨i, here, cells⟩ := Slots.modify_found (fun p => p.dispatchPending.2) found
  have ran := Os.dispatchPending_found found
  have answer := registered.dispatchPending_eq
  refine ⟨i, _, by rw [ran, answer], here, ?_, fun j other => ?_, rfl⟩
  · rw [cells, if_pos rfl, answer]
    rfl
  · rw [cells, if_neg other]

/-- Signal 3 is ignored, signal 9 ends the process. -/
def Os.struck : List ProcOp :=
  [.launch .done, .task .run, .sigaction 3 sigIgn, .raise 9, .raise 3]

theorem Os.struck_run : ProcOp.system.Run (fun _ _ => True) Os.boot (ProcOp.system.after Os.boot Os.struck) :=
  Stepper.Run.start.follow ⟨trivial, trivial, by decide, trivial, rfl, by decide, trivial, trivial, by decide,
    trivial, trivial, by decide, trivial, trivial, by decide, trivial⟩

theorem dispatch_pending_selects_struck : ∃ (s s' : Os) (p : Process) (i : Nat),
    ProcOp.system.Run (fun _ _ => True) Os.boot s ∧ Os.dispatchPending 1 s = .ok true s' ∧
      s'.processes.at? i = some { p with state := .zombie, exitStatus := some (-1), pendingSignals := 0 } := by
  obtain ⟨p, found⟩ : ∃ p, (ProcOp.system.after Os.boot Os.struck).findProcess 1 = some p :=
    Option.isSome_iff_exists.mp (by decide)
  have registered := dispatch_pending_selects.1 _ Os.struck_run p (Os.findProcess_mem found).1
  have owes : p.Owes := by
    have all : ((ProcOp.system.after Os.boot Os.struck).findProcess 1).all (fun p => p.Owes) = true := by decide
    rw [found] at all
    simpa using all
  obtain ⟨i, s', ran, -, here, -⟩ := dispatch_pending_selects.2 _ 1 p found registered
  rw [decide_eq_true owes] at ran
  rw [if_pos owes] at here
  exact ⟨_, s', p, i, Os.struck_run, ran, here⟩

end CapsuleOS
