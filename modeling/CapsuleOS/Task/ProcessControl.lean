import CapsuleOS.Task.ProcessRuns

/-!
# Who may end a process

State and exit status of a process change by its own exit, by a signal from itself or its parent, and
when its parent reaps it. A trace records the signals that were asked for, with the process that asked,
so that a signal can be traced back from the moment it takes effect.

Two calls break this: `PROC_MGMT_EXIT` asks for no authority, and an exit writes its code over the one of
a process that is a zombie already.
-/
namespace CapsuleOS

open Lib

/-- The process of the running thread. -/
def Os.callerPid (s : Os) : Option Nat := s.sched.getCurrentThread.map (·.processId)

structure ControlTrace where
  os : Os
  /-- Sender, target and number of every signal that was asked for. -/
  sent : List (Nat × Nat × Nat)

namespace ProcOp

/-- The signals that a call asks for. -/
def sends (s : Os) (op : ProcOp) : List (Nat × Nat × Nat) :=
  match s.callerPid, op with
  | some caller, .raise sig => [(caller, caller, sig)]
  | some caller, .kill pid sig =>
    if pid < 0 then []
    else if pid = 0 then
      (s.processes.occupants.filter (·.parentPid == caller)).map fun p => (caller, p.id, sig)
    else [(caller, pid.toNat, sig)]
  | _, _ => []

def traced (op : ProcOp) : Prog ControlTrace Status Unit := fun tr =>
  match op.perform tr.os with
  | .ok () s => .ok () ⟨s, tr.sent ++ op.sends tr.os⟩
  | .err e s => .err e ⟨s, tr.sent ++ op.sends tr.os⟩
  | .fault s => .fault ⟨s, tr.sent ++ op.sends tr.os⟩

/-- The process calls with the signals that were asked for. -/
def controlSystem : Stepper ControlTrace Status ProcOp := ⟨traced, fun tr op => op.Enabled tr.os⟩

/-- The call ends the process by its own exit or fault, or by a pending signal that the process or its
parent has sent. -/
def MayEnd (tr : ControlTrace) (op : ProcOp) (p : Process) : Prop :=
  tr.os.callerPid = some p.id ∧
    ((∃ code, op = .exit code) ∨ op = .fault ∨
      op = .pause ∧ ∃ sender, ∃ n : Fin nsig, (sender, p.id, n.val + 1) ∈ tr.sent ∧
        p.pendingSignals.getLsbD n ∧ p.sigHandlers n ≠ sigIgn ∧ (sender = p.id ∨ sender = p.parentPid))

/-- The parent waits for the process. -/
def MayReap (tr : ControlTrace) (op : ProcOp) (p : Process) : Prop :=
  tr.os.callerPid = some p.parentPid ∧ ((∃ pid, op = .wait4 pid) ∨ ∃ pid, op = .procMgmtWait pid)

/-- Processes change with authority only, and a zombie keeps its exit status until it is reaped. -/
structure Controlled (tr : ControlTrace) (op : ProcOp) (tr' : ControlTrace) : Prop where
  changes : ∀ p ∈ tr.os.processes.occupants, p.id ≠ 0 → ∀ p' ∈ tr'.os.processes.occupants,
    p'.id = p.id → (p'.state = p.state ∧ p'.exitStatus = p.exitStatus) ∨ op.MayEnd tr p
  once : ∀ p ∈ tr.os.processes.occupants, p.id ≠ 0 → p.state = .zombie →
    ∀ p' ∈ tr'.os.processes.occupants, p'.id = p.id → p'.exitStatus = p.exitStatus
  goes : ∀ p ∈ tr.os.processes.occupants, p.id ≠ 0 →
    (∀ p' ∈ tr'.os.processes.occupants, p'.id ≠ p.id) → op.MayReap tr p ∧ p.reapable = true

/-- `PROC_MGMT_EXIT` names no process that it would change, and a thread of a zombie does not exit with
another code. -/
def Proper (s : Os) : ProcOp → Prop
  | .procMgmtExit pid code => ∀ p ∈ s.processes.occupants, p.id ≠ 0 → p.id = pid →
      p.state = .zombie ∧ p.exitStatus = some code
  | .exit code => ∀ p ∈ s.processes.occupants, s.callerPid = some p.id → p.state = .zombie →
      p.exitStatus = some code
  | _ => True

end ProcOp

/-! ## Signals of one process -/

namespace Process

variable {p : Process}

theorem raiseSignal_pending {sig : Nat} {n : Fin nsig} (range : 0 < sig ∧ sig ≤ nsig)
    (set : (p.raiseSignal sig).pendingSignals.getLsbD n) :
    p.pendingSignals.getLsbD n ∨ n.val + 1 = sig := by
  unfold raiseSignal at set
  simp only [BitVec.getLsbD_or, BitVec.getLsbD_shiftLeft, Bool.or_eq_true, Bool.and_eq_true,
    decide_eq_true_eq, Bool.not_eq_true', decide_eq_false_iff_not] at set
  rcases set with old | ⟨⟨_, above⟩, bit⟩
  · exact Or.inl old
  · right
    rw [BitVec.getLsbD_one] at bit
    simp only [Bool.and_eq_true, decide_eq_true_eq] at bit
    omega

/-- The dispatcher clears signals; it ends the process if one is pending that is not ignored. -/
structure Dispatched (pending : BitVec nsig) (p p' : Process) : Prop where
  id_eq : p'.id = p.id
  parent_eq : p'.parentPid = p.parentPid
  fewer : ∀ n : Fin nsig, p'.pendingSignals.getLsbD n → p.pendingSignals.getLsbD n
  cause : (p'.state = p.state ∧ p'.exitStatus = p.exitStatus) ∨
    ∃ n : Fin nsig, pending.getLsbD n ∧ p.sigHandlers n ≠ sigIgn

theorem dispatchPending_dispatched (p : Process) :
    Dispatched p.pendingSignals p p.dispatchPending.2 := by
  rcases p.dispatchPending_cases with ⟨-, eq⟩ | ⟨fatal, eq⟩ <;> rw [eq]
  · exact ⟨rfl, rfl, fun n bit => by simp at bit, .inl ⟨rfl, rfl⟩⟩
  · exact ⟨rfl, rfl, fun n bit => by simp at bit, .inr fatal⟩

end Process

/-! ## Calls that end no process -/

/-- What of a process such a call may change: signals become pending if `may` allows it. -/
structure Process.Tended (may : Fin nsig → Nat → Nat → Prop) (p p' : Process) : Prop where
  id_eq : p'.id = p.id
  parent_eq : p'.parentPid = p.parentPid
  state_eq : p'.state = p.state
  code_eq : p'.exitStatus = p.exitStatus
  pending : ∀ n : Fin nsig, p'.pendingSignals.getLsbD n →
    p.pendingSignals.getLsbD n ∨ may n p.id p.parentPid

theorem Process.Tended.refl {may : Fin nsig → Nat → Nat → Prop} (p : Process) : p.Tended may p :=
  ⟨rfl, rfl, rfl, rfl, fun _ => Or.inl⟩

theorem Process.Tended.trans {may : Fin nsig → Nat → Nat → Prop} {p q r : Process}
    (h : p.Tended may q) (h' : q.Tended may r) : p.Tended may r where
  id_eq := h'.id_eq.trans h.id_eq
  parent_eq := h'.parent_eq.trans h.parent_eq
  state_eq := h'.state_eq.trans h.state_eq
  code_eq := h'.code_eq.trans h.code_eq
  pending n bit := by
    rcases h'.pending n bit with before | now
    · exact h.pending n before
    · exact Or.inr (h.id_eq ▸ h.parent_eq ▸ now)

namespace Os

/-- Every process goes on, and those that are new have no signal. -/
structure Carries (may : Fin nsig → Nat → Nat → Prop) (s s' : Os) : Prop where
  kept : ∀ p ∈ s.processes.occupants, ∃ p' ∈ s'.processes.occupants, p.Tended may p'
  old : ∀ p' ∈ s'.processes.occupants,
    ∃ p, (p ∈ s.processes.occupants ∨ p.pendingSignals = 0) ∧ p.Tended may p'

variable {may : Fin nsig → Nat → Nat → Prop} {s s₁ s' : Os}

instance : Std.Refl (Carries may) :=
  ⟨fun _ => ⟨fun p mem => ⟨p, mem, .refl p⟩, fun p mem => ⟨p, Or.inl mem, .refl p⟩⟩⟩

theorem Carries.trans (h : Carries may s s₁) (h' : Carries may s₁ s') : Carries may s s' where
  kept p mem := by
    obtain ⟨q, mem_q, first⟩ := h.kept p mem
    obtain ⟨r, mem_r, second⟩ := h'.kept q mem_q
    exact ⟨r, mem_r, first.trans second⟩
  old r mem := by
    obtain ⟨q, from_q, second⟩ := h'.old r mem
    rcases from_q with mem_q | clear
    · obtain ⟨p, from_p, first⟩ := h.old q mem_q
      exact ⟨p, from_p, first.trans second⟩
    · exact ⟨q, Or.inr clear, second⟩

instance : IsTrans Os (Carries may) := ⟨fun _ _ _ => Carries.trans⟩

theorem Carries.of_processes (same : s'.processes = s.processes) : Carries may s s' := by
  refine ⟨fun p mem => ⟨p, same ▸ mem, .refl p⟩, fun p mem => ⟨p, Or.inl (same ▸ mem), .refl p⟩⟩

theorem carries_threadFree : ThreadFree (Carries may) where
  tasks _ _ := .of_processes rfl
  threadId _ _ := .of_processes rfl

/-! ### Creation -/

theorem carries_insert {processes : Slots Process maxProcesses} {new : Process} {counter : Nat}
    (ok : s.processes.insert? new = some processes) (clear : new.pendingSignals = 0) :
    Carries may s { s with processes, processIdCounter := counter } := by
  have perm := Slots.insert?_perm ok
  refine ⟨fun p mem => ⟨p, perm.mem_iff.mpr (List.mem_cons_of_mem _ mem), .refl p⟩, fun p mem => ?_⟩
  rcases List.mem_cons.mp (perm.mem_iff.mp mem) with rfl | old
  · exact ⟨p, Or.inr clear, .refl p⟩
  · exact ⟨p, Or.inl old, .refl p⟩

theorem carries_allocateProcess (parentPid : Nat) (e : Option Status) :
    Prog.Within (Carries may) (allocateProcess parentPid e) := by
  intro s
  unfold allocateProcess
  cases e with
  | some e =>
    cases ok : s.processes.insert? Process.newDummy with
    | none => exact Std.Refl.refl s
    | some processes => exact carries_insert ok rfl
  | none =>
    cases ok : s.processes.insert? (Process.init s.processIdCounter parentPid) with
    | none => exact Std.Refl.refl s
    | some processes => exact carries_insert ok rfl

/-! ### Updates -/

/-- Where the processes after an update come from. -/
theorem mem_modify {pid : Nat} {f : Process → Process} {p' : Process}
    (mem : p' ∈ (s.processes.modify (·.id == pid) f).occupants) :
    p' ∈ s.processes.occupants ∨ ∃ a ∈ s.processes.occupants, a.id = pid ∧ p' = f a := by
  rcases s.processes.modify_occupants (·.id == pid) f with ⟨_, same⟩ | ⟨l, a, r, eq, _, ha, eq'⟩
  · exact Or.inl (same ▸ mem)
  · rw [eq'] at mem
    have id_a : a.id = pid := by simpa using ha
    rw [eq]
    grind

/-- Where the processes before an update go. -/
theorem modify_mem {pid : Nat} {f : Process → Process} {p : Process}
    (mem : p ∈ s.processes.occupants) :
    p ∈ (s.processes.modify (·.id == pid) f).occupants ∨
      p.id = pid ∧ f p ∈ (s.processes.modify (·.id == pid) f).occupants := by
  rcases s.processes.modify_occupants (·.id == pid) f with ⟨_, same⟩ | ⟨l, a, r, eq, _, ha, eq'⟩
  · exact Or.inl (same ▸ mem)
  · rw [eq']
    rw [eq] at mem
    have id_a : a.id = pid := by simpa using ha
    grind

theorem carries_updateProcess {pid : Nat} {f : Process → Process}
    (tends : ∀ p ∈ s.processes.occupants, p.id = pid → p.Tended may (f p)) :
    Carries may s (updateProcess pid f s).state where
  kept p mem := by
    rcases modify_mem mem with same | ⟨here, changed⟩
    · exact ⟨p, same, .refl p⟩
    · exact ⟨f p, changed, tends p mem here⟩
  old p' mem := by
    rcases mem_modify mem with same | ⟨a, mem_a, here, rfl⟩
    · exact ⟨p', Or.inl same, .refl p'⟩
    · exact ⟨a, Or.inl mem_a, tends a mem_a here⟩

theorem carries_sigactionSet (sig handler : Nat) : Prog.Within (Carries may) (sigactionSet sig handler) :=
  within_sigactionSet fun _ _ _ _ => carries_updateProcess fun _ _ _ => ⟨rfl, rfl, rfl, rfl, fun _ => Or.inl⟩

/-- A signal is sent to a process that may get it. -/
theorem carries_signalSend {pid sig : Nat}
    (allowed : ∀ p ∈ s.processes.occupants, p.id = pid → ∀ n : Fin nsig, n.val + 1 = sig →
      may n p.id p.parentPid) : Carries may s (signalSend pid sig s).state := by
  unfold signalSend
  split_ifs with range
  · exact Std.Refl.refl s
  · cases found : s.findProcess pid with
    | none =>
      simp only [Prog.bind_apply, lookupProcess, found]
      exact Std.Refl.refl s
    | some p =>
      simp only [Prog.bind_apply, lookupProcess, found]
      refine carries_updateProcess fun q mem here => ⟨rfl, rfl, rfl, rfl, fun n set => ?_⟩
      rcases Process.raiseSignal_pending (by omega) set with old | now
      · exact Or.inl old
      · exact Or.inr (allowed q mem here n now)

/-- The processes are the old ones, as far as their parents go. -/
def SameParents (s s' : Os) : Prop := ∀ p' ∈ s'.processes.occupants,
  ∃ p ∈ s.processes.occupants, p.id = p'.id ∧ p.parentPid = p'.parentPid

theorem signalSend_parents {pid sig : Nat} : SameParents s (signalSend pid sig s).state := by
  have stays : SameParents s s := fun p mem => ⟨p, mem, rfl, rfl⟩
  unfold signalSend
  split_ifs
  · exact stays
  · cases found : s.findProcess pid with
    | none =>
      simp only [Prog.bind_apply, lookupProcess, found]
      exact stays
    | some p =>
      simp only [Prog.bind_apply, lookupProcess, found]
      intro p' mem
      rcases mem_modify mem with same | ⟨a, mem_a, _, rfl⟩
      · exact ⟨p', same, rfl, rfl⟩
      · exact ⟨a, mem_a, rfl, rfl⟩

/-- A signal is sent to several processes that may all get it. -/
theorem carries_signalAll {sig : Nat} {pids : List Nat}
    (allowed : ∀ pid ∈ pids, ∀ p ∈ s.processes.occupants, p.id = pid → ∀ n : Fin nsig,
      n.val + 1 = sig → may n p.id p.parentPid) :
    Carries may s (Prog.forEach (signalSend · sig) pids s).state := by
  induction pids generalizing s with
  | nil => exact Std.Refl.refl s
  | cons pid pids ih =>
    have first : Carries may s (signalSend pid sig s).state :=
      carries_signalSend (allowed pid List.mem_cons_self)
    have parents : SameParents s (signalSend pid sig s).state := signalSend_parents
    have rest : Carries may (signalSend pid sig s).state
        (Prog.forEach (signalSend · sig) pids (signalSend pid sig s).state).state := by
      refine ih fun pid' mem p' mem_p here n eq => ?_
      obtain ⟨p, mem_s, id_eq, parent_eq⟩ := parents p' mem_p
      rw [← id_eq, ← parent_eq]
      exact allowed pid' (List.mem_cons_of_mem _ mem) p mem_s (id_eq.trans here) n eq
    cases out : signalSend pid sig s with
    | ok _ s₁ =>
      rw [out] at first rest
      rw [show Prog.forEach (signalSend · sig) (pid :: pids) s =
        Prog.forEach (signalSend · sig) pids s₁ from Prog.bind_ok out]
      exact first.trans rest
    | err e s₁ =>
      rw [out] at first
      rw [show Prog.forEach (signalSend · sig) (pid :: pids) s = .err e s₁ from Prog.bind_err out]
      exact first
    | fault s₁ =>
      rw [out] at first
      rw [show Prog.forEach (signalSend · sig) (pid :: pids) s = .fault s₁ from Prog.bind_fault out]
      exact first

theorem carries_bind {α β : Type} {m : OsM α} {f : α → OsM β} (first : Carries may s (m s).state)
    (rest : ∀ a, Prog.Within (Carries may) (f a)) : Carries may s ((m >>= f) s).state := by
  rw [Prog.bind_apply]
  cases out : m s with
  | ok a s₁ =>
    rw [out] at first
    exact first.trans (rest a s₁)
  | err e s₁ =>
    rw [out] at first
    exact first
  | fault s₁ =>
    rw [out] at first
    exact first

end Os

namespace ProcOp

open Os

/-- A signal that the call asks for, on behalf of the process or its parent. -/
def Sanctions (s : Os) (op : ProcOp) (n : Fin nsig) (pid parentPid : Nat) : Prop :=
  pid ≠ 0 → ∃ sender, (sender, pid, n.val + 1) ∈ op.sends s ∧ (sender = pid ∨ sender = parentPid)

variable {s s₁ s' : Os}

theorem callerPid_of_current {t : Tcb} (cur : s.sched.getCurrentThread = some t) :
    s.callerPid = some t.processId := by simp [callerPid, cur]

theorem carries_raise (sig : Nat) :
    Carries ((ProcOp.raise sig).Sanctions s) s (Os.raise sig s).state := by
  unfold Os.raise
  split_ifs
  · exact Std.Refl.refl s
  cases cur : s.sched.getCurrentThread with
  | none =>
    simp only [Prog.bind_apply, currentProcessId, cur]
    exact Std.Refl.refl s
  | some t =>
    rw [Prog.bind_ok (show currentProcessId s = .ok t.processId s by simp [currentProcessId, cur])]
    refine carries_bind (carries_signalSend fun p _ here n eq _ => ?_) fun _ => ?_
    · refine ⟨t.processId, ?_, Or.inl here.symm⟩
      simp [sends, callerPid_of_current cur, here, eq]
    · refine Prog.Within.get.bind fun s₁ => ?_
      split_ifs
      · exact Prog.Within.throw _
      · exact Prog.Within.pure _

theorem carries_kill (sound : s.Sound) (pid : Int) (sig : Nat) :
    Carries ((ProcOp.kill pid sig).Sanctions s) s (Os.kill pid sig s).state := by
  unfold Os.kill
  cases cur : s.sched.getCurrentThread with
  | none =>
    simp only [Prog.bind_apply, currentProcessId, cur]
    exact Std.Refl.refl s
  | some t =>
    have caller := callerPid_of_current cur
    rw [Prog.bind_ok (show currentProcessId s = .ok t.processId s by simp [currentProcessId, cur])]
    split_ifs with negative all
    · exact Std.Refl.refl s
    · -- a broadcast to the children of the caller
      rw [Prog.bind_ok (Prog.get_apply s)]
      refine carries_bind (carries_signalAll fun target mem p mem_p here n eq nonzero => ?_) fun _ => ?_
      · obtain ⟨child, mem_child, rfl⟩ := List.mem_map.mp mem
        obtain ⟨mem_s, parent⟩ := List.mem_filter.mp mem_child
        have one : p = child := sound.unique mem_p mem_s here nonzero
        subst one
        have parent_eq : p.parentPid = t.processId := by simpa using parent
        refine ⟨t.processId, ?_, Or.inr parent_eq.symm⟩
        simp only [sends, caller, all, lt_irrefl, if_false, if_true, List.mem_map]
        exact ⟨p, mem_child, by simp [eq]⟩
      · split_ifs
        · exact Prog.Within.throw _
        · exact Prog.Within.pure _
    · rw [Prog.bind_ok (Prog.get_apply s)]
      have asked : ∀ n : Fin nsig, n.val + 1 = sig →
          (t.processId, pid.toNat, n.val + 1) ∈ (ProcOp.kill pid sig).sends s := by
        intro n eq
        simp [sends, caller, negative, all, eq]
      split_ifs with own
      · refine carries_signalSend fun p _ here n eq _ => ⟨t.processId, here ▸ asked n eq, Or.inl ?_⟩
        rw [here, own]
      · cases found : s.findProcess pid.toNat with
        | none =>
          simp only [Prog.bind_apply, lookupProcess, found]
          exact Std.Refl.refl s
        | some p =>
          rw [Prog.bind_ok (show lookupProcess pid.toNat s = .ok p s by simp [lookupProcess, found])]
          split_ifs with other
          · exact Std.Refl.refl s
          · obtain ⟨mem_p, id_p⟩ := findProcess_mem found
            refine carries_signalSend fun q mem_q here n eq nonzero =>
              ⟨t.processId, here ▸ asked n eq, Or.inr ?_⟩
            have one : q = p := sound.unique mem_q mem_p (here.trans id_p.symm) nonzero
            rw [one]
            exact (not_not.mp other).symm

/-! ## One step -/

/-- Every pending signal was asked for by the process or its parent. -/
def Signed (tr : ControlTrace) : Prop := ∀ p ∈ tr.os.processes.occupants, p.id ≠ 0 →
  ∀ n : Fin nsig, p.pendingSignals.getLsbD n →
    ∃ sender, (sender, p.id, n.val + 1) ∈ tr.sent ∧ (sender = p.id ∨ sender = p.parentPid)

variable {tr tr' : ControlTrace} {op : ProcOp}

theorem traced_ends (step : controlSystem.Steps op tr tr') :
    (op.perform tr.os).Ends tr'.os ∧ tr'.sent = tr.sent ++ op.sends tr.os := by
  have ran := step.ran
  simp only [controlSystem, traced] at ran
  cases out : op.perform tr.os with
  | ok _ s =>
    rw [out] at ran
    cases ran
    exact ⟨.ok _ s, rfl⟩
  | err e s =>
    rw [out] at ran
    cases ran
    exact ⟨.err e s, rfl⟩
  | fault s =>
    rw [out] at ran
    cases ran

/-- The processes keep their ids and parents, and new signals are sanctioned. -/
theorem Signed.step (h : Signed tr)
    (origin : ∀ p' ∈ s'.processes.occupants, ∃ p, (p ∈ tr.os.processes.occupants ∨ p.pendingSignals = 0) ∧
      p'.id = p.id ∧ p'.parentPid = p.parentPid ∧
      ∀ n : Fin nsig, p'.pendingSignals.getLsbD n →
        p.pendingSignals.getLsbD n ∨ op.Sanctions tr.os n p.id p.parentPid) :
    Signed ⟨s', tr.sent ++ op.sends tr.os⟩ := by
  intro p' mem nonzero n set
  obtain ⟨p, source, id_eq, parent_eq, pending⟩ := origin p' mem
  rw [id_eq] at nonzero
  rw [id_eq, parent_eq]
  rcases pending n set with before | now
  · rcases source with mem_p | clear
    · obtain ⟨sender, sent, who⟩ := h p mem_p nonzero n before
      exact ⟨sender, List.mem_append_left _ sent, who⟩
    · rw [clear] at before
      simp at before
  · obtain ⟨sender, sent, who⟩ := now nonzero
    exact ⟨sender, List.mem_append_right _ sent, who⟩

theorem Signed.of_carries (h : Signed tr) (carries : Carries (op.Sanctions tr.os) tr.os s') :
    Signed ⟨s', tr.sent ++ op.sends tr.os⟩ :=
  h.step fun p' mem =>
    have ⟨p, source, tends⟩ := carries.old p' mem
    ⟨p, source, tends.id_eq, tends.parent_eq, tends.pending⟩

theorem Controlled.of_carries {may : Fin nsig → Nat → Nat → Prop} (sound' : tr'.os.Sound)
    (carries : Carries may tr.os tr'.os) : Controlled tr op tr' := by
  have next : ∀ p ∈ tr.os.processes.occupants, p.id ≠ 0 → ∀ p' ∈ tr'.os.processes.occupants,
      p'.id = p.id → p.Tended may p' := by
    intro p mem nonzero p' mem' id_eq
    obtain ⟨q, mem_q, tends⟩ := carries.kept p mem
    have one : p' = q := sound'.unique mem' mem_q (id_eq.trans tends.id_eq.symm) (id_eq ▸ nonzero)
    exact one ▸ tends
  refine ⟨fun p mem nonzero p' mem' id_eq => Or.inl ?_, fun p mem nonzero _ p' mem' id_eq => ?_,
    fun p mem nonzero gone => ?_⟩
  · have tends := next p mem nonzero p' mem' id_eq
    exact ⟨tends.state_eq, tends.code_eq⟩
  · exact (next p mem nonzero p' mem' id_eq).code_eq
  · obtain ⟨q, mem_q, tends⟩ := carries.kept p mem
    exact absurd tends.id_eq (gone q mem_q)

theorem Controlled.of_processes (sound' : tr'.os.Sound) (same : tr'.os.processes = tr.os.processes) :
    Controlled tr op tr' :=
  have carries : Carries (op.Sanctions tr.os) tr.os tr'.os := .of_processes same
  .of_carries sound' carries

/-! ### Exits -/

/-- The first process with the id has been marked. -/
structure Marked (s s' : Os) (pid : Nat) (code : Int) : Prop where
  source : ∀ p' ∈ s'.processes.occupants, p' ∈ s.processes.occupants ∨
    ∃ p ∈ s.processes.occupants, p.id = pid ∧ p' = p.toZombie code
  target : ∀ p ∈ s.processes.occupants, p ∈ s'.processes.occupants ∨
    p.id = pid ∧ p.toZombie code ∈ s'.processes.occupants

theorem marked_of_eq {pid : Nat} {code : Int}
    (same : s'.processes = s.processes.modify (·.id == pid) (·.toZombie code)) :
    Marked s s' pid code := by
  refine ⟨fun p' mem => mem_modify (same ▸ mem), fun p mem => ?_⟩
  rw [same]
  exact modify_mem mem

theorem Marked.signed {pid : Nat} {code : Int} (h : Signed tr) (mark : Marked tr.os s' pid code) :
    Signed ⟨s', tr.sent ++ op.sends tr.os⟩ := by
  refine h.step fun p' mem => ?_
  rcases mark.source p' mem with same | ⟨p, mem_p, _, rfl⟩
  · exact ⟨p', Or.inl same, rfl, rfl, fun _ => Or.inl⟩
  · exact ⟨p, Or.inl mem_p, rfl, rfl, fun _ => Or.inl⟩

/-- A mark changes the marked process and no other. -/
theorem Marked.controlled {pid : Nat} {code : Int} (sound : tr.os.Sound)
    (mark : Marked tr.os tr'.os pid code)
    (authority : ∀ p ∈ tr.os.processes.occupants, p.id ≠ 0 → p.id = pid →
      (p.state = .zombie ∧ p.exitStatus = some code) ∨ op.MayEnd tr p)
    (once : ∀ p ∈ tr.os.processes.occupants, p.id ≠ 0 → p.id = pid → p.state = .zombie →
      p.exitStatus = some code) : Controlled tr op tr' := by
  have next : ∀ p ∈ tr.os.processes.occupants, p.id ≠ 0 → ∀ p' ∈ tr'.os.processes.occupants,
      p'.id = p.id → p' = p ∨ p.id = pid ∧ p' = p.toZombie code := by
    intro p mem nonzero p' mem' id_eq
    rcases mark.source p' mem' with same | ⟨q, mem_q, here, rfl⟩
    · exact Or.inl (sound.unique same mem id_eq (id_eq ▸ nonzero))
    · have one : q = p := sound.unique mem_q mem id_eq (id_eq ▸ nonzero)
      subst one
      exact Or.inr ⟨here, rfl⟩
  refine ⟨fun p mem nonzero p' mem' id_eq => ?_, fun p mem nonzero zombie p' mem' id_eq => ?_,
    fun p mem nonzero gone => ?_⟩
  · rcases next p mem nonzero p' mem' id_eq with rfl | ⟨here, rfl⟩
    · exact Or.inl ⟨rfl, rfl⟩
    · rcases authority p mem nonzero here with ⟨zombie, same⟩ | may
      · exact Or.inl ⟨zombie.symm, same.symm⟩
      · exact Or.inr may
  · rcases next p mem nonzero p' mem' id_eq with rfl | ⟨here, rfl⟩
    · rfl
    · exact (once p mem nonzero here zombie).symm
  · rcases mark.target p mem with same | ⟨_, changed⟩
    · exact absurd rfl (gone p same)
    · exact absurd rfl (gone (p.toZombie code) changed)

/-- The process with the id carries the mark afterwards. -/
theorem Marked.get {pid : Nat} {code : Int} (same : s'.processes =
    s.processes.modify (·.id == pid) (·.toZombie code)) (sound : s.Sound) {p : Process}
    (mem : p ∈ s.processes.occupants) (nonzero : p.id ≠ 0) (here : p.id = pid) :
    p.toZombie code ∈ s'.processes.occupants := by
  rcases s.processes.modify_occupants (·.id == pid) (·.toZombie code) with
    ⟨out, _⟩ | ⟨l, a, r, eq, _, ha, eq'⟩
  · exact absurd (by simpa using here) (out p mem)
  · have mem_a : a ∈ s.processes.occupants := by
      rw [eq]
      simp
    have one : p = a := sound.unique mem mem_a (here.trans (by simpa using ha : a.id = pid).symm) nonzero
    rw [same, eq', one]
    simp

theorem exit_processes {code : Int} (ran : (Os.exit code s).Ends s') :
    (s.callerPid = none ∧ s'.processes = s.processes) ∨
      ∃ pid, s.callerPid = some pid ∧
        s'.processes = s.processes.modify (·.id == pid) (·.toZombie code) := by
  simp only [Os.exit, Prog.bind_apply, Prog.get_apply] at ran
  cases cur : s.sched.getCurrentThread with
  | none =>
    simp only [cur] at ran
    have ran : (onSched Scheduler.die s).Ends s' := ran
    obtain ⟨sched, _, rfl⟩ := onSched_ends ran
    exact Or.inl ⟨by simp [callerPid, cur], rfl⟩
  | some t =>
    simp only [cur] at ran
    have ran : (onSched Scheduler.die { s with
      processes := s.processes.modify (·.id == t.processId) (·.toZombie code) }).Ends s' := ran
    obtain ⟨sched, _, rfl⟩ := onSched_ends ran
    exact Or.inr ⟨t.processId, callerPid_of_current cur, rfl⟩

theorem callerPid_nonzero (sound : s.Sound) {pid : Nat} (caller : s.callerPid = some pid) : pid ≠ 0 := by
  obtain ⟨t, cur, rfl⟩ := Option.map_eq_some_iff.mp caller
  obtain ⟨i, _, thread⟩ := Option.bind_eq_some_iff.mp cur
  exact (sound.thread _ _ _ (Scheduler.fates_of_thread thread)).1

theorem exit_controlled {code : Int} (sound : tr.os.Sound) (sound' : tr'.os.Sound)
    (ran : (Os.exit code tr.os).Ends tr'.os) :
    Controlled tr (.exit code) tr' ↔ (ProcOp.exit code).Proper tr.os := by
  rcases exit_processes ran with ⟨nobody, same⟩ | ⟨pid, caller, same⟩
  · refine iff_of_true (.of_processes sound' same) ?_
    intro p _ caller
    rw [nobody] at caller
    cases caller
  · constructor
    · intro controlled p mem own zombie
      have nonzero := callerPid_nonzero sound own
      rw [caller] at own
      have marked := Marked.get same sound mem nonzero (Option.some.inj own).symm
      exact (controlled.once p mem nonzero zombie _ marked rfl).symm
    · intro proper
      refine (marked_of_eq same).controlled sound (fun p _ _ here => Or.inr ?_)
        fun p mem _ here zombie => proper p mem (here ▸ caller) zombie
      exact ⟨here ▸ caller, Or.inl ⟨code, rfl⟩⟩

theorem procMgmtExit_marked {pid : Nat} {code : Int} (sound : s.Sound)
    (ran : (Os.procMgmtExit pid code s).Ends s') :
    Marked s s' pid code ∧ ∀ p ∈ s.processes.occupants, p.id ≠ 0 → p.id = pid →
      p.toZombie code ∈ s'.processes.occupants := by
  cases found : s.findProcess pid with
  | none =>
    simp only [Os.procMgmtExit, Prog.bind_apply, lookupProcess, found] at ran
    cases ran
    refine ⟨⟨fun p mem => Or.inl mem, fun p mem => Or.inl mem⟩, fun p mem _ here => ?_⟩
    rw [findProcess, Slots.find?_eq] at found
    exact absurd (by simpa using here) (List.find?_eq_none.mp found p mem)
  | some q =>
    have out : Os.procMgmtExit pid code s =
        .ok () { s with processes := s.processes.modify (·.id == pid) (·.toZombie code) } := by
      simp only [Os.procMgmtExit, Prog.bind_apply, lookupProcess, found]
      rfl
    rw [out] at ran
    cases ran
    exact ⟨marked_of_eq rfl, fun p mem nonzero here => Marked.get rfl sound mem nonzero here⟩

theorem procMgmtExit_controlled {pid : Nat} {code : Int} (sound : tr.os.Sound)
    (ran : (Os.procMgmtExit pid code tr.os).Ends tr'.os) :
    Controlled tr (.procMgmtExit pid code) tr' ↔ (ProcOp.procMgmtExit pid code).Proper tr.os := by
  obtain ⟨mark, lands⟩ := procMgmtExit_marked sound ran
  constructor
  · intro controlled p mem nonzero here
    rcases controlled.changes p mem nonzero _ (lands p mem nonzero here) rfl with ⟨state, status⟩ | may
    · exact ⟨state.symm, status.symm⟩
    · rcases may.2 with ⟨_, no⟩ | no | ⟨no, _⟩ <;> cases no
  · intro proper
    exact mark.controlled sound (fun p mem nonzero here => Or.inl (proper p mem nonzero here))
      fun p mem nonzero here _ => (proper p mem nonzero here).2

/-! ### Reaping -/

/-- A wait takes a child of the caller out of the table, or leaves the table alone. -/
theorem wait_processes {m : Nat → OsM Nat} {pid : Int} (ran : ((currentProcessId >>= m) s).Ends s')
    (waits : ∀ caller, ((m caller s).Ends s' → s'.processes = s.processes ∨ ∃ p s₁,
      reap caller pid s = .ok (some p) s₁ ∧ s' = s₁)) :
    s'.processes = s.processes ∨ ∃ caller p, s.callerPid = some caller ∧
      reap caller pid s = .ok (some p) s' := by
  rcases currentProcessId_inv ran with rfl | ⟨t, cur, rest⟩
  · exact Or.inl rfl
  · rcases waits t.processId rest with same | ⟨p, s₁, took, rfl⟩
    · exact Or.inl same
    · exact Or.inr ⟨t.processId, p, callerPid_of_current cur, took⟩

theorem reap_none {caller : Nat} {pid : Int} (nobody : reap caller pid s = .ok none s₁) : s₁ = s := by
  unfold reap at nobody
  split at nobody <;> cases nobody
  rfl

theorem reap_returns (caller : Nat) (pid : Int) (s : Os) : ∃ r s₁, reap caller pid s = .ok r s₁ := by
  unfold reap
  split
  · exact ⟨_, _, rfl⟩
  · exact ⟨_, _, rfl⟩

theorem wait4_processes {pid : Int} (ran : (Os.wait4 pid s).Ends s') :
    s'.processes = s.processes ∨ ∃ caller p, s.callerPid = some caller ∧
      reap caller pid s = .ok (some p) s' := by
  refine wait_processes ran fun caller rest => ?_
  split_ifs at rest
  · cases rest
    exact Or.inl rfl
  obtain ⟨r, s₁, took⟩ := reap_returns caller pid s
  rw [Prog.bind_ok took] at rest
  cases r with
  | some p =>
    cases rest
    exact Or.inr ⟨p, s', took, rfl⟩
  | none =>
    rw [reap_none took] at rest
    simp only [Prog.bind_apply, Prog.get_apply] at rest
    split_ifs at rest <;> cases rest <;> exact Or.inl rfl

theorem procMgmtWait_processes {pid : Int} (ran : (Os.procMgmtWait pid s).Ends s') :
    s'.processes = s.processes ∨ ∃ caller p, s.callerPid = some caller ∧
      reap caller pid s = .ok (some p) s' := by
  refine wait_processes ran fun caller rest => ?_
  obtain ⟨r, s₁, took⟩ := reap_returns caller pid s
  rw [Prog.bind_ok took] at rest
  cases r with
  | some p =>
    cases rest
    exact Or.inr ⟨p, s', took, rfl⟩
  | none =>
    rw [reap_none took] at rest
    cases rest
    exact Or.inl rfl

/-- What both waits do to the processes. -/
theorem reap_controlled {pid : Int} (sound : tr.os.Sound) (sound' : tr'.os.Sound) (signed : Signed tr)
    (waits : (∃ q, op = .wait4 q) ∨ ∃ q, op = .procMgmtWait q)
    (effect : tr'.os.processes = tr.os.processes ∨ ∃ caller p, tr.os.callerPid = some caller ∧
      reap caller pid tr.os = .ok (some p) tr'.os) :
    Controlled tr op tr' ∧ Signed ⟨tr'.os, tr.sent ++ op.sends tr.os⟩ := by
  rcases effect with same | ⟨caller, q, own, took⟩
  · exact ⟨.of_processes sound' same,
      signed.of_carries (.of_processes same)⟩
  obtain ⟨mem_q, child, reapable, perm⟩ := reap_inv took
  have left : ∀ p ∈ tr'.os.processes.occupants, p ∈ tr.os.processes.occupants :=
    fun p mem => perm.mem_iff.mpr (List.mem_cons_of_mem _ mem)
  have next : ∀ p ∈ tr.os.processes.occupants, p.id ≠ 0 → ∀ p' ∈ tr'.os.processes.occupants,
      p'.id = p.id → p' = p := fun p mem nonzero p' mem' id_eq =>
    sound.unique (left p' mem') mem id_eq (id_eq ▸ nonzero)
  constructor
  · refine ⟨fun p mem nonzero p' mem' id_eq => ?_, fun p mem nonzero _ p' mem' id_eq => ?_,
      fun p mem nonzero gone => ?_⟩
    · rw [next p mem nonzero p' mem' id_eq]
      exact Or.inl ⟨rfl, rfl⟩
    · rw [next p mem nonzero p' mem' id_eq]
    · rcases List.mem_cons.mp (perm.mem_iff.mp mem) with rfl | stays
      · have parent : p.parentPid = caller := by
          simp only [Process.isChild, Bool.and_eq_true, beq_iff_eq] at child
          exact child.1
        exact ⟨⟨parent ▸ own, waits⟩, reapable⟩
      · exact absurd rfl (gone p stays)
  · exact signed.step fun p mem => ⟨p, Or.inl (left p mem), rfl, rfl, fun _ => Or.inl⟩

/-! ### Dispatch -/

/-- What one round of `sys_pause` does to the processes. -/
theorem pause_processes (ran : (Os.pause s).Ends s') :
    s'.processes = s.processes ∨ ∃ pid p, s.callerPid = some pid ∧ s.findProcess pid = some p ∧
      p.state ≠ .zombie ∧
      s'.processes = s.processes.modify (·.id == pid) fun p => p.dispatchPending.2 := by
  rcases currentProcessId_inv ran with rfl | ⟨t, cur, rest⟩
  · exact Or.inl rfl
  rcases lookupProcess_inv rest with rfl | ⟨p, found, rest⟩
  · exact Or.inl rfl
  split_ifs at rest with zombie
  · cases rest
    exact Or.inl rfl
  rcases Prog.bind_ends rest with ⟨e, bad⟩ | ⟨u, s₁, ok, rest⟩
  · cases bad
  cases ok
  refine Or.inr ⟨t.processId, p, callerPid_of_current cur, found, zombie, ?_⟩
  split_ifs at rest
  · cases rest
    rfl
  · obtain ⟨sched, _, rfl⟩ := onSched_ends rest
    rfl

theorem pause_controlled (sound : tr.os.Sound) (sound' : tr'.os.Sound) (signed : Signed tr)
    (effect : tr'.os.processes = tr.os.processes ∨ ∃ pid p, tr.os.callerPid = some pid ∧
      tr.os.findProcess pid = some p ∧ p.state ≠ .zombie ∧
      tr'.os.processes = tr.os.processes.modify (·.id == pid) fun p => p.dispatchPending.2) :
    Controlled tr .pause tr' ∧ Signed ⟨tr'.os, tr.sent ++ ProcOp.pause.sends tr.os⟩ := by
  rcases effect with same | ⟨pid, q, own, found, alive, same⟩
  · exact ⟨.of_processes sound' same,
      signed.of_carries (.of_processes same)⟩
  obtain ⟨mem_q, id_q⟩ := findProcess_mem found
  have source : ∀ p' ∈ tr'.os.processes.occupants, p' ∈ tr.os.processes.occupants ∨
      ∃ p ∈ tr.os.processes.occupants, p.id = pid ∧ p' = p.dispatchPending.2 :=
    fun p' mem => mem_modify (same ▸ mem)
  have next : ∀ p ∈ tr.os.processes.occupants, p.id ≠ 0 → ∀ p' ∈ tr'.os.processes.occupants,
      p'.id = p.id → p' = p ∨ p = q ∧ p' = p.dispatchPending.2 := by
    intro p mem nonzero p' mem' id_eq
    rcases source p' mem' with stays | ⟨a, mem_a, here, rfl⟩
    · exact Or.inl (sound.unique stays mem id_eq (id_eq ▸ nonzero))
    · rw [a.dispatchPending_dispatched.id_eq] at id_eq
      have one : a = p := sound.unique mem_a mem id_eq (id_eq ▸ nonzero)
      subst one
      exact Or.inr ⟨sound.unique mem mem_q (here.trans id_q.symm) nonzero, rfl⟩
  constructor
  · refine ⟨fun p mem nonzero p' mem' id_eq => ?_, fun p mem nonzero zombie p' mem' id_eq => ?_,
      fun p mem nonzero gone => ?_⟩
    · rcases next p mem nonzero p' mem' id_eq with rfl | ⟨here, rfl⟩
      · exact Or.inl ⟨rfl, rfl⟩
      · rcases p.dispatchPending_dispatched.cause with unchanged | ⟨n, set, fatal⟩
        · exact Or.inl unchanged
        · obtain ⟨sender, sent, who⟩ := signed p mem nonzero n set
          refine Or.inr ⟨?_, Or.inr (Or.inr ⟨rfl, sender, n, sent, set, fatal, who⟩)⟩
          rw [here, id_q]
          exact own
    · rcases next p mem nonzero p' mem' id_eq with rfl | ⟨here, _⟩
      · rfl
      · exact absurd (here ▸ zombie) alive
    · have goes : p ∈ tr'.os.processes.occupants ∨
          p.id = pid ∧ p.dispatchPending.2 ∈ tr'.os.processes.occupants := by
        rw [same]
        exact modify_mem mem
      rcases goes with stays | ⟨_, changed⟩
      · exact absurd rfl (gone p stays)
      · exact absurd p.dispatchPending_dispatched.id_eq (gone _ changed)
  · refine signed.step fun p' mem => ?_
    rcases source p' mem with stays | ⟨p, mem_p, _, rfl⟩
    · exact ⟨p', Or.inl stays, rfl, rfl, fun _ => Or.inl⟩
    · have dispatched := p.dispatchPending_dispatched
      exact ⟨p, Or.inl mem_p, dispatched.id_eq, dispatched.parent_eq,
        fun n set => Or.inl (dispatched.fewer n set)⟩

/-! ### Every call -/

/-- A call that ends and reaps no process. -/
def Plain : ProcOp → Bool
  | .exit _ | .procMgmtExit _ _ | .wait4 _ | .procMgmtWait _ | .pause => false
  | _ => true

theorem carries_plain (sound : s.Sound) {op : ProcOp} (plain : op.Plain = true) :
    Carries (op.Sanctions s) s (op.perform s).state := by
  cases op with
  | task op => exact carries_threadFree.onTasks _ s
  | launch last =>
    exact ((carries_threadFree.launch carries_allocateProcess 0 last).bind fun _ => Prog.Within.pure ()) s
  | spawn last =>
    exact ((carries_threadFree.spawn carries_allocateProcess last).bind fun _ => Prog.Within.pure ()) s
  | exec last =>
    exact ((carries_threadFree.launch carries_allocateProcess 0 last).bind fun _ =>
      carries_threadFree.onTasks _) s
  | execve last =>
    exact ((carries_threadFree.spawn carries_allocateProcess last).bind fun _ =>
      carries_threadFree.onTasks _) s
  | processCreate e => exact ((carries_allocateProcess 0 e).bind fun _ => Prog.Within.pure ()) s
  | procMgmtCreate parentPid e =>
    exact ((carries_allocateProcess parentPid e).bind fun _ => Prog.Within.pure ()) s
  | threadCreate pid e => exact carries_threadFree.threadCreate pid e s
  | fault => exact carries_threadFree.onTasks _ s
  | sigaction sig handler => exact ((carries_sigactionSet sig handler).bind fun _ => Prog.Within.pure ()) s
  | raise sig => exact carries_raise sig
  | kill pid sig => exact carries_kill sound pid sig
  | exit | procMgmtExit | wait4 | procMgmtWait | pause => cases plain

theorem control_step (sound : tr.os.Sound) (signed : Signed tr) (step : controlSystem.Steps op tr tr') :
    tr'.os.Sound ∧ Signed tr' ∧ (Controlled tr op tr' ↔ op.Proper tr.os) := by
  obtain ⟨ran, sent⟩ := traced_ends step
  have sound' : tr'.os.Sound := (kept ⟨step.enabled, ran⟩ sound).sound
  have both : Signed ⟨tr'.os, tr.sent ++ op.sends tr.os⟩ ∧ (Controlled tr op tr' ↔ op.Proper tr.os) := by
    by_cases plain : op.Plain = true
    · have carries := carries_plain sound plain
      rw [ran.state_eq] at carries
      refine ⟨signed.of_carries carries, iff_of_true (.of_carries sound' carries) ?_⟩
      cases op <;> trivial
    · cases op with
      | exit code =>
        refine ⟨?_, exit_controlled sound sound' ran⟩
        rcases exit_processes ran with ⟨_, same⟩ | ⟨pid, _, same⟩
        · exact signed.of_carries (.of_processes same)
        · exact (marked_of_eq same).signed signed
      | procMgmtExit pid code =>
        exact ⟨(procMgmtExit_marked sound ran).1.signed signed, procMgmtExit_controlled sound ran⟩
      | wait4 pid =>
        obtain ⟨controlled, signed'⟩ := reap_controlled sound sound' signed (Or.inl ⟨pid, rfl⟩)
          (wait4_processes (Prog.map_ends ran))
        exact ⟨signed', iff_of_true controlled trivial⟩
      | procMgmtWait pid =>
        obtain ⟨controlled, signed'⟩ := reap_controlled sound sound' signed (Or.inr ⟨pid, rfl⟩)
          (procMgmtWait_processes (Prog.map_ends ran))
        exact ⟨signed', iff_of_true controlled trivial⟩
      | pause =>
        obtain ⟨controlled, signed'⟩ := pause_controlled sound sound' signed (pause_processes ran)
        exact ⟨signed', iff_of_true controlled trivial⟩
      | _ => exact absurd rfl plain
  have signed' := both.1
  rw [← sent] at signed'
  exact ⟨sound', signed', both.2⟩

theorem control_run (run : controlSystem.Run (fun _ _ => True) ⟨Os.boot, []⟩ tr) :
    tr.os.Sound ∧ Signed tr := by
  refine run.invariant (I := fun tr => tr.os.Sound ∧ Signed tr) ⟨boot_sound, ?_⟩ ?_
  · intro p mem
    rw [Os.boot, Slots.occupants_empty] at mem
    cases mem
  · intro op tr tr' inv _ step
    obtain ⟨sound, signed, _⟩ := control_step inv.1 inv.2 step
    exact ⟨sound, signed⟩

end ProcOp

/-- In every run every call is controlled exactly when it is no `PROC_MGMT_EXIT` that changes a process,
and no exit of a zombie with another code. -/
theorem process_control_iff (tr : ControlTrace) (op : ProcOp) (tr' : ControlTrace)
    (run : ProcOp.controlSystem.Run (fun _ _ => True) ⟨Os.boot, []⟩ tr)
    (step : ProcOp.controlSystem.Steps op tr tr') : op.Controlled tr tr' ↔ op.Proper tr.os :=
  have inv := ProcOp.control_run run
  (ProcOp.control_step inv.1 inv.2 step).2.2

/-- A process has spawned another one, which runs. -/
def Os.family : List ProcOp := [.launch .done, .task .run, .spawn .done, .task .tick]

theorem Os.family_run : ProcOp.controlSystem.Run (fun _ _ => True) ⟨Os.boot, []⟩
    (ProcOp.controlSystem.after ⟨Os.boot, []⟩ Os.family) :=
  Stepper.Run.start.follow ⟨trivial, trivial, by decide, trivial, rfl, by decide, trivial, trivial,
    by decide, trivial, trivial, by decide, trivial⟩

theorem Os.family_step (op : ProcOp) (enabled : op.Enabled
      (ProcOp.controlSystem.after ⟨Os.boot, []⟩ Os.family).os)
    (returns : (op.traced (ProcOp.controlSystem.after ⟨Os.boot, []⟩ Os.family)).faulted = false) :
    ProcOp.controlSystem.Steps op (ProcOp.controlSystem.after ⟨Os.boot, []⟩ Os.family)
      (ProcOp.controlSystem.after ⟨Os.boot, []⟩ (Os.family ++ [op])) :=
  ⟨enabled, Outcome.ends_state returns⟩

/-- The child exits. -/
theorem process_control_family : (ProcOp.exit 7).Controlled
    (ProcOp.controlSystem.after ⟨Os.boot, []⟩ Os.family)
    (ProcOp.controlSystem.after ⟨Os.boot, []⟩ (Os.family ++ [.exit 7])) := by
  refine (process_control_iff _ _ _ Os.family_run
    (Os.family_step (.exit 7) trivial (by decide))).mpr fun p mem _ zombie => ?_
  have none_dead : ((ProcOp.controlSystem.after ⟨Os.boot, []⟩ Os.family).os.processes.occupants.all
      fun p => p.state != .zombie) = true := by decide
  have alive := List.all_eq_true.mp none_dead p mem
  simp [zombie] at alive

/-- A child ends its parent through `PROC_MGMT_EXIT`. -/
theorem child_ends_parent : ¬ ∀ tr op tr',
    ProcOp.controlSystem.Run (fun _ _ => True) ⟨Os.boot, []⟩ tr →
      ProcOp.controlSystem.Steps op tr tr' → op.Controlled tr tr' := by
  intro claim
  have step := Os.family_step (.procMgmtExit 1 7) trivial (by decide)
  have inv := ProcOp.control_run Os.family_run
  have proper := (ProcOp.control_step inv.1 inv.2 step).2.2.mp (claim _ _ _ Os.family_run step)
  have listed : ((ProcOp.controlSystem.after ⟨Os.boot, []⟩ Os.family).os.processes.occupants.any
      fun p => p.id == 1 && p.state == .initial) = true := by decide
  obtain ⟨p, mem, eq⟩ := List.any_eq_true.mp listed
  simp only [Bool.and_eq_true, beq_iff_eq] at eq
  have ended := (proper p mem (by simp [eq.1]) eq.1).1
  rw [eq.2] at ended
  cases ended

end CapsuleOS
