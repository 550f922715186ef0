import CapsuleOS.Task.ProcessIds
import CapsuleOS.Task.UserMemory

/-!
# Reaping

The two calls by which a parent waits for a child. `wait4` copies the status to the caller before it takes
the child out of the table, and does not look at how the copy went; `PROC_MGMT_WAIT` returns the status.
Both find the same child, and both take it once; they tell a caller without a child different things.
-/
namespace CapsuleOS

open Lib

/-! ## Taking a process out of the table -/

namespace Os

variable {s s' : Os} {z : Process}

/-- The process that both calls take: the first zombie in the table that the caller may have. -/
def firstZombie (s : Os) (caller : Nat) (pid : Int) : Option Process :=
  s.processes.find? fun p => p.isChild caller pid && p.reapable

theorem firstZombie_spec {caller : Nat} {pid : Int} (found : s.firstZombie caller pid = some z) :
    z ∈ s.processes.occupants ∧ z.isChild caller pid = true ∧ z.reapable = true := by
  rw [firstZombie, Slots.find?_eq] at found
  have fits := List.find?_some found
  rw [Bool.and_eq_true] at fits
  exact ⟨List.mem_of_find?_eq_some found, fits⟩

theorem reap_some {caller : Nat} {pid : Int} (found : s.firstZombie caller pid = some z) :
    ∃ s', reap caller pid s = .ok (some z) s' ∧ s.Took s' z ∧ s'.sched = s.sched := by
  unfold reap
  cases taken : s.processes.take? fun p => p.isChild caller pid && p.reapable with
  | none =>
    rw [Slots.take?_eq_none] at taken
    cases taken.symm.trans found
  | some r =>
    obtain ⟨q, processes⟩ := r
    cases (Slots.take?_find taken).symm.trans found
    exact ⟨_, rfl, ⟨Slots.take?_perm taken, rfl, rfl⟩, rfl⟩

theorem reap_none {caller : Nat} {pid : Int} (missing : s.firstZombie caller pid = none) :
    reap caller pid s = .ok none s := by
  unfold reap
  rw [Slots.take?_eq_none.mpr missing]

theorem current_ok {t : Tcb} (cur : s.sched.getCurrentThread = some t) :
    currentProcessId s = .ok t.processId s := by
  simp only [currentProcessId, cur]

theorem wait4_takes {t : Tcb} {pid : Int} (cur : s.sched.getCurrentThread = some t) (ge : -1 ≤ pid)
    (taken : reap t.processId pid s = .ok (some z) s') : wait4 pid s = .ok z.id s' := by
  unfold wait4
  simp only [Prog.bind_apply, current_ok cur, if_neg (not_lt.mpr ge), taken]
  rfl

/-- The error of a call of `wait4` that takes nothing. -/
def wait4Refusal (s : Os) (caller : Nat) (pid : Int) : Status :=
  if pid < -1 then .invalidArgs
  else if (s.processes.find? (Process.isChild caller pid)).isSome then .tryAgain else .notFound

theorem wait4_refuses {t : Tcb} {pid : Int} (cur : s.sched.getCurrentThread = some t)
    (skip : s.firstZombie t.processId pid = none ∨ pid < -1) :
    wait4 pid s = .err (s.wait4Refusal t.processId pid) s := by
  unfold wait4 wait4Refusal
  by_cases below : pid < -1
  · simp only [Prog.bind_apply, current_ok cur, if_pos below]
    rfl
  · simp only [Prog.bind_apply, current_ok cur, if_neg below, reap_none (skip.resolve_right below),
      Prog.get]
    split_ifs <;> rfl

end Os

/-! ## The memory of the child -/

namespace TreeState

/-- The contents of memory are the same. -/
def SameMem (t t' : TreeState) : Prop := t'.mm.mem = t.mm.mem

instance : Std.Refl SameMem := ⟨fun _ => rfl⟩

instance : IsTrans TreeState SameMem := ⟨fun _ _ _ h h' => h'.trans h⟩

theorem freeTree_mem : Prog.Within SameMem PageTableTree.freeTree := by
  refine Prog.Within.get.bind fun t => ?_
  split_ifs
  · refine Prog.Within.bind (Prog.Within.zoom (Mm.dropPhysPages_still _) ?_) fun _ => .modify fun _ => rfl
    exact fun _ _ still => still.mem_eq
  · exact .pure ()

theorem freeTree_noErr : Prog.NoErr PageTableTree.freeTree := by
  refine Prog.NoErr.get.bind fun t => ?_
  split_ifs
  · exact (noErr_dropPhysPages _).zoom.bind fun _ => .modify _
  · exact .pure ()

end TreeState

namespace Sys

variable {s s' : Sys}

/-- Neither the processes nor the contents of memory have changed. -/
def Inert (s s' : Sys) : Prop := s'.os = s.os ∧ s'.mm.mem = s.mm.mem

instance : Std.Refl Inert := ⟨fun _ => ⟨rfl, rfl⟩⟩

instance : IsTrans Sys Inert := ⟨fun _ _ _ h h' => ⟨h'.1.trans h.1, h'.2.trans h.2⟩⟩

theorem dropSpace_inert (pid : Nat) : Prog.Within Inert (dropSpace pid) := by
  refine Prog.Within.bind (Prog.Within.zoom TreeState.freeTree_mem ?_) fun _ =>
    Prog.Within.get.bind fun s => Prog.Within.zoom (Mm.dropPhysPage_still _) ?_
  · exact fun s t same => ⟨rfl, same⟩
  · exact fun s mm still => ⟨rfl, still.mem_eq⟩

theorem dropSpace_noErr (pid : Nat) : Prog.NoErr (dropSpace pid) :=
  TreeState.freeTree_noErr.zoom.bind fun _ => Prog.NoErr.get.bind fun _ => (noErr_dropPhysPage _).zoom

/-- What the child leaves behind is freed, or a frame of it is not in use and the kernel stops. -/
theorem dropSpace_then (pid r : Nat) (s : Sys) :
    ∃ s', ((do dropSpace pid; return r : SysM Nat) s = .ok r s' ∨
      (do dropSpace pid; return r : SysM Nat) s = .fault s') ∧ s.Inert s' := by
  have inert := dropSpace_inert pid s
  cases run : dropSpace pid s with
  | ok a u =>
    rw [run] at inert
    exact ⟨u, .inl (Prog.bind_ok run), inert⟩
  | err e u => exact absurd run (dropSpace_noErr pid s e u)
  | fault u =>
    rw [run] at inert
    exact ⟨u, .inr (by simp only [Prog.bind_apply, run]), inert⟩

end Sys

/-! ## Single calls -/

inductive WaitCall where
  | wait4 (pid : Int) (statusPtr : Nat)
  | procMgmt (pid : Int)

namespace Sys

variable {s s' : Sys} {t : Tcb} {z : Process} {pid : Int} {statusPtr caller : Nat}

/-- The root by which `wait4` reaches the memory of the caller. -/
def callerRoot (s : Sys) (caller : Nat) : Nat :=
  if (s.os.findProcess caller).isSome then (s.space caller).tree.l0Pa else 0

/-- The exit status as an unsigned word. -/
def statusWord (z : Process) : Nat := ((z.exitStatus.getD 0) % 2 ^ 32).toNat

/-- The copy of the status to the caller. -/
def copyStatus (s : Sys) (caller statusPtr : Nat) (z : Process) : Outcome Mm Status Unit :=
  safeCopyToUser (s.callerRoot caller) (Mem.toBytes 4 (statusWord z)) statusPtr s.mm

/-- The status can be delivered, or is not asked for. -/
def Arrives (s : Sys) (caller statusPtr : Nat) (z : Process) : Prop :=
  statusPtr = 0 ∨ ∃ mm, s.copyStatus caller statusPtr z = .ok () mm

/-- Memory after `wait4` has copied the status, or as much of it as there is room for. -/
def withStatus (s : Sys) (caller statusPtr : Nat) (z : Process) : Mm :=
  if statusPtr = 0 then s.mm else (s.copyStatus caller statusPtr z).state

theorem deliverStatus_skips (skip : s.os.firstZombie caller pid = none ∨ pid < -1) :
    deliverStatus caller pid statusPtr s = .ok () s := by
  unfold deliverStatus
  simp only [Prog.bind_apply, Prog.get]
  cases found : s.os.processes.find? fun p => p.isChild caller pid && p.reapable with
  | none => rfl
  | some z =>
    rcases skip with missing | below
    · cases missing.symm.trans found
    · simp only [if_pos (Or.inl below : pid < -1 ∨ statusPtr = 0)]
      rfl

theorem deliverStatus_copies (found : s.os.firstZombie caller pid = some z) (ge : -1 ≤ pid) :
    deliverStatus caller pid statusPtr s = .ok () { s with mm := s.withStatus caller statusPtr z } := by
  have found : (s.os.processes.find? fun p => p.isChild caller pid && p.reapable) = some z := found
  unfold deliverStatus withStatus
  simp only [Prog.bind_apply, Prog.get, found]
  by_cases zero : statusPtr = 0
  · rw [if_pos (.inr zero), if_pos zero]
    rfl
  · rw [if_neg (not_or.mpr ⟨not_lt.mpr ge, zero⟩), if_neg zero]
    unfold copyStatus callerRoot statusWord
    rcases safeCopyToUser_cases (if (s.os.findProcess caller).isSome then (s.space caller).tree.l0Pa else 0)
      (Mem.toBytes 4 ((z.exitStatus.getD 0) % 2 ^ 32).toNat) statusPtr s.mm with ⟨mm, run⟩ | ⟨mm, run⟩
    · simp only [Prog.bind_apply, Prog.attempt, onMm, Prog.zoom, run]
      rfl
    · simp only [Prog.bind_apply, Prog.attempt, onMm, Prog.zoom, run]
      rfl

end Sys

namespace WaitCall

/-- Which children the call asks for. -/
def filter : WaitCall → Int
  | .wait4 pid _ => pid
  | .procMgmt pid => pid

def perform : WaitCall → SysM Nat
  | .wait4 pid statusPtr => Sys.wait4 pid statusPtr
  | .procMgmt pid => Sys.procMgmtWait pid

/-- `wait4` takes no process group. -/
def Takes : WaitCall → Prop
  | .wait4 pid _ => -1 ≤ pid
  | .procMgmt _ => True

/-- What the call answers for the child. -/
def answer (z : Process) : WaitCall → Nat
  | .wait4 _ _ => z.id
  | .procMgmt _ => Sys.statusWord z

/-- What the call leaves in memory of the child. -/
def memory (s : Sys) (caller : Nat) (z : Process) : WaitCall → Mm
  | .wait4 _ statusPtr => s.withStatus caller statusPtr z
  | .procMgmt _ => s.mm

end WaitCall

namespace Sys

variable {s s' : Sys} {t : Tcb} {z : Process} {pid : Int} {statusPtr caller : Nat} {call : WaitCall}

theorem currentProcessId_nobody (nobody : s.os.sched.getCurrentThread = none) :
    onOs Os.currentProcessId s = .err .notFound s :=
  Prog.zoom_err (by simp only [Os.currentProcessId, nobody])

theorem currentProcessId_current (cur : s.os.sched.getCurrentThread = some t) :
    onOs Os.currentProcessId s = .ok t.processId s :=
  Prog.zoom_ok (Os.current_ok cur)

theorem wait_nobody (call : WaitCall) (nobody : s.os.sched.getCurrentThread = none) : call.perform s = .err .notFound s := by
  cases call with
  | wait4 pid statusPtr => exact Prog.bind_err (currentProcessId_nobody nobody)
  | procMgmt pid => exact Prog.bind_err (currentProcessId_nobody nobody)

/-- A call that finds a zombie takes it, whatever becomes of the status. -/
theorem wait_finds (call : WaitCall) (cur : s.os.sched.getCurrentThread = some t)
    (found : s.os.firstZombie t.processId call.filter = some z) (takes : call.Takes) :
    ∃ s', (call.perform s = .ok (call.answer z) s' ∨ call.perform s = .fault s') ∧ s.os.Took s'.os z ∧
      s'.mm.mem = (call.memory s t.processId z).mem := by
  obtain ⟨os, taken, took, sched⟩ := Os.reap_some found
  cases call with
  | wait4 pid statusPtr =>
    have waited : Os.wait4 pid s.os = .ok z.id os := Os.wait4_takes cur takes taken
    let u : Sys := { s with mm := s.withStatus t.processId statusPtr z, os }
    obtain ⟨s', ends, same, mem⟩ := dropSpace_then z.id z.id u
    have runs : Sys.wait4 pid statusPtr s = (do dropSpace z.id; return z.id : SysM Nat) u :=
      (Prog.bind_ok (currentProcessId_current cur)).trans
        ((Prog.bind_ok (deliverStatus_copies found takes)).trans (Prog.bind_ok (Prog.zoom_ok waited)))
    refine ⟨s', ?_, same ▸ took, mem⟩
    exact ends.imp runs.trans runs.trans
  | procMgmt pid =>
    let u : Sys := { s with os }
    obtain ⟨s', ends, same, mem⟩ := dropSpace_then z.id (statusWord z) u
    have runs : Sys.procMgmtWait pid s = (do dropSpace z.id; return statusWord z : SysM Nat) u :=
      (Prog.bind_ok (currentProcessId_current cur)).trans (Prog.bind_ok (Prog.zoom_ok taken))
    refine ⟨s', ?_, same ▸ took, mem⟩
    exact ends.imp runs.trans runs.trans

/-- The error of a call that takes nothing. -/
def refusal (s : Sys) (caller : Nat) : WaitCall → Status
  | .wait4 pid _ => s.os.wait4Refusal caller pid
  | .procMgmt _ => .tryAgain

theorem wait_refuses (call : WaitCall) (cur : s.os.sched.getCurrentThread = some t)
    (skip : s.os.firstZombie t.processId call.filter = none ∨ ¬ call.Takes) :
    call.perform s = .err (s.refusal t.processId call) s := by
  cases call with
  | wait4 pid statusPtr =>
    have skip : s.os.firstZombie t.processId pid = none ∨ pid < -1 := skip.imp_right not_le.mp
    have refused : Os.wait4 pid s.os = .err (s.os.wait4Refusal t.processId pid) s.os :=
      Os.wait4_refuses cur skip
    exact (Prog.bind_ok (currentProcessId_current cur)).trans
      ((Prog.bind_ok (deliverStatus_skips skip)).trans (Prog.bind_err (Prog.zoom_err refused)))
  | procMgmt pid =>
    have missing : s.os.firstZombie t.processId pid = none := skip.resolve_right (not_not.mpr trivial)
    exact (Prog.bind_ok (currentProcessId_current cur)).trans
      (Prog.bind_ok (Prog.zoom_ok (Os.reap_none missing)))

/-- A call either does nothing but fail, or takes the first zombie that fits. -/
theorem wait_cases (s : Sys) (call : WaitCall) : (∃ e, call.perform s = .err e s) ∨
    ∃ t z s', s.os.sched.getCurrentThread = some t ∧
      s.os.firstZombie t.processId call.filter = some z ∧ call.Takes ∧
      (call.perform s = .ok (call.answer z) s' ∨ call.perform s = .fault s') ∧ s.os.Took s'.os z ∧
      s'.mm.mem = (call.memory s t.processId z).mem := by
  cases cur : s.os.sched.getCurrentThread with
  | none => exact .inl ⟨_, wait_nobody call cur⟩
  | some t =>
    by_cases takes : call.Takes
    · cases found : s.os.firstZombie t.processId call.filter with
      | none => exact .inl ⟨_, wait_refuses call cur (.inl found)⟩
      | some z =>
        obtain ⟨s', ends, took, mem⟩ := wait_finds call cur found takes
        exact .inr ⟨t, z, s', rfl, found, takes, ends, took, mem⟩
    · exact .inl ⟨_, wait_refuses call cur (.inr takes)⟩

/-- A zombie is taken by its parent, which asks for it, and its status goes where the call delivers it. -/
structure Reaps (s : Sys) (call : WaitCall) (answer : Nat) (s' : Sys) (t : Tcb) (z : Process) : Prop where
  current : s.os.sched.getCurrentThread = some t
  fits : z.isChild t.processId call.filter = true
  reapable : z.reapable = true
  took : s.os.Took s'.os z
  answers : answer = call.answer z
  delivers : s'.mm.mem = (call.memory s t.processId z).mem

/-- What one call does: it reaps, or fails and leaves everything as it is, and it does not fail if there is
a zombie for it. -/
structure Exact (s : Sys) (call : WaitCall) : Prop where
  reaps : ∀ answer s', call.perform s = .ok answer s' → ∃ t z, s.Reaps call answer s' t z
  fails : ∀ e s', call.perform s = .err e s' → s' = s
  finds : ∀ t z, s.os.sched.getCurrentThread = some t →
    s.os.firstZombie t.processId call.filter = some z → call.Takes →
    s.os.Took (call.perform s).state.os z

theorem exact (s : Sys) (call : WaitCall) : s.Exact call := by
  refine ⟨fun answer s' run => ?_, fun e s' run => ?_, fun t z cur found takes => ?_⟩
  · rcases wait_cases s call with ⟨e, failed⟩ | ⟨t, z, u, cur, found, -, ends, took, mem⟩
    · cases failed.symm.trans run
    · obtain ⟨-, fits, reapable⟩ := Os.firstZombie_spec found
      rcases ends with done | stopped
      · cases done.symm.trans run
        exact ⟨t, z, cur, fits, reapable, took, rfl, mem⟩
      · cases stopped.symm.trans run
  · rcases wait_cases s call with ⟨e', failed⟩ | ⟨t, z, u, -, -, -, ends, -⟩
    · cases failed.symm.trans run
      rfl
    · rcases ends with done | stopped
      · cases done.symm.trans run
      · cases stopped.symm.trans run
  · obtain ⟨s', ends, took, -⟩ := wait_finds call cur found takes
    rcases ends with done | stopped
    · rwa [done]
    · rwa [stopped]

/-- `wait4` leaves a child alone whose status it cannot deliver. -/
def Withholds (s : Sys) (pid : Int) (statusPtr : Nat) : Prop :=
  ∀ t z, s.os.sched.getCurrentThread = some t → s.os.Took (wait4 pid statusPtr s).state.os z →
    s.Arrives t.processId statusPtr z

/-- There is no zombie for the call, or the pointer is null, or memory is mapped for the status. -/
def Deliverable (s : Sys) (pid : Int) (statusPtr : Nat) : Prop :=
  ∀ t z, s.os.sched.getCurrentThread = some t → -1 ≤ pid → s.os.firstZombie t.processId pid = some z →
    s.Arrives t.processId statusPtr z

theorem took_unique {u : Os} {z₁ z₂ : Process} (h₁ : s.os.Took u z₁) (h₂ : s.os.Took u z₂) :
    z₁ = z₂ := by
  have perm : (z₁ :: u.processes.occupants).Perm (z₂ :: u.processes.occupants) :=
    h₁.perm.symm.trans h₂.perm
  have same : z₁ ::ₘ (u.processes.occupants : Multiset Process) = z₂ ::ₘ ↑u.processes.occupants :=
    Multiset.coe_eq_coe.mpr perm
  exact (Multiset.cons_inj_left _).mp same

theorem withholds_iff (s : Sys) (pid : Int) (statusPtr : Nat) :
    s.Withholds pid statusPtr ↔ s.Deliverable pid statusPtr := by
  constructor
  · intro withholds t z cur ge found
    exact withholds t z cur ((s.exact (.wait4 pid statusPtr)).finds t z cur found ge)
  · intro deliverable t z cur took
    rcases wait_cases s (.wait4 pid statusPtr) with ⟨e, failed⟩ | ⟨t', z', s', cur', found, ge, ends, took', -⟩
    · have failed : wait4 pid statusPtr s = .err e s := failed
      rw [failed] at took
      exact absurd took.perm.length_eq (by simp [Outcome.state])
    · cases cur.symm.trans cur'
      have same : (wait4 pid statusPtr s).state = s' := by
        rcases ends with done | stopped
        · exact congrArg Outcome.state done
        · exact congrArg Outcome.state stopped
      rw [same] at took
      cases took_unique took took'
      exact deliverable t z cur ge found

/-- The two calls report the same about children that are missing or still running. -/
def Agrees (s : Sys) (pid : Int) : Prop := ∀ statusPtr, ∀ e ∈ [Status.notFound, Status.tryAgain],
  (∃ s', procMgmtWait pid s = .err e s') ↔ ∃ s', wait4 pid statusPtr s = .err e s'

/-- Nobody calls, or there is a zombie to take, or a child that runs and that `wait4` may be asked for. -/
def Answerable (s : Sys) (pid : Int) : Prop := ∀ t, s.os.sched.getCurrentThread = some t →
  (s.os.firstZombie t.processId pid).isSome ∨
    -1 ≤ pid ∧ (s.os.processes.find? (Process.isChild t.processId pid)).isSome

theorem agrees_iff (s : Sys) (pid : Int) : s.Agrees pid ↔ s.Answerable pid := by
  constructor
  · intro agrees t cur
    cases found : s.os.firstZombie t.processId pid with
    | some z => exact .inl rfl
    | none =>
      have mgmt : procMgmtWait pid s = .err .tryAgain s :=
        wait_refuses (.procMgmt pid) cur (.inl found)
      have wait : wait4 pid 0 s = .err (s.os.wait4Refusal t.processId pid) s :=
        wait_refuses (.wait4 pid 0) cur (.inl found)
      obtain ⟨s', again⟩ := (agrees 0 .tryAgain (by decide)).mp ⟨s, mgmt⟩
      rw [wait] at again
      injection again with refusal
      unfold Os.wait4Refusal at refusal
      split_ifs at refusal with below child
      exact .inr ⟨not_lt.mp below, child⟩
  · intro answerable statusPtr e mem
    cases cur : s.os.sched.getCurrentThread with
    | none =>
      have mgmt : procMgmtWait pid s = .err .notFound s := wait_nobody (.procMgmt pid) cur
      have wait : wait4 pid statusPtr s = .err .notFound s := wait_nobody (.wait4 pid statusPtr) cur
      rw [mgmt, wait]
    | some t =>
      cases found : s.os.firstZombie t.processId pid with
      | some z =>
        obtain ⟨u, ends, -⟩ := wait_finds (.procMgmt pid) cur found trivial
        have mgmt : ¬ ∃ s', procMgmtWait pid s = .err e s' := by
          rintro ⟨s', failed⟩
          rcases ends with done | stopped
          · cases done.symm.trans failed
          · cases stopped.symm.trans failed
        refine iff_of_false mgmt ?_
        rintro ⟨s', failed⟩
        by_cases ge : -1 ≤ pid
        · obtain ⟨v, ends', -⟩ := wait_finds (.wait4 pid statusPtr) cur found ge
          rcases ends' with done | stopped
          · cases done.symm.trans failed
          · cases stopped.symm.trans failed
        · have wait : wait4 pid statusPtr s = .err (s.os.wait4Refusal t.processId pid) s :=
            wait_refuses (.wait4 pid statusPtr) cur (.inr ge)
          rw [wait, Os.wait4Refusal, if_pos (not_le.mp ge)] at failed
          cases failed
          exact absurd mem (by decide)
      | none =>
        have mgmt : procMgmtWait pid s = .err .tryAgain s :=
          wait_refuses (.procMgmt pid) cur (.inl found)
        have wait : wait4 pid statusPtr s = .err (s.os.wait4Refusal t.processId pid) s :=
          wait_refuses (.wait4 pid statusPtr) cur (.inl found)
        obtain ⟨ge, child⟩ := (answerable t cur).resolve_left (by simp [found])
        rw [mgmt, wait, Os.wait4Refusal, if_neg (not_lt.mpr ge), if_pos child]

end Sys

/-! ## Runs -/

/-- One of the two calls, or another call of some process, while memory changes in any way. -/
inductive WaitOp where
  | wait (call : WaitCall)
  | elsewhere (op : ProcOp) (mm : Mm) (space : Nat → Space)

namespace WaitOp

def perform : WaitOp → SysM Unit
  | .wait call => do let _ ← call.perform
  | .elsewhere op mm space => do
    Prog.modify fun s => { s with mm, space }
    Sys.onOs op.perform

def Enabled (s : Sys) : WaitOp → Prop
  | .wait _ => True
  | .elsewhere op _ _ => ¬ op.Waits ∧ op.Enabled s.os

instance (s : Sys) : DecidablePred (Enabled s) := fun op =>
  match op with
  | .wait _ => .isTrue trivial
  | .elsewhere op _ _ => inferInstanceAs (Decidable (¬ op.Waits ∧ op.Enabled s.os))

/-- The calls that wait, among the others. -/
def system : Stepper Sys Status WaitOp := ⟨perform, Enabled⟩

variable {s₀ s s' : Sys} {op : WaitOp}

/-- A process may be made. -/
def Creates : WaitOp → Prop
  | .wait _ => False
  | .elsewhere op _ _ => op.Creates

instance : DecidablePred Creates := fun op =>
  match op with
  | .wait _ => .isFalse id
  | .elsewhere op _ _ => inferInstanceAs (Decidable op.Creates)

/-- A step takes one child, or nobody is reaped. -/
theorem step_cases (step : system.Steps op s s') :
    (∃ z, s.os.Took s'.os z) ∨ s.os.Enrols op.Creates s'.os := by
  cases op with
  | wait call =>
    have ran : (call.perform s).Ends s' := Prog.map_ends step.ran
    rcases Sys.wait_cases s call with ⟨e, failed⟩ | ⟨t, z, u, -, -, -, done | stopped, took, -⟩
    · rw [failed] at ran
      cases ran
      exact .inr (Std.Refl.refl _)
    · rw [done] at ran
      cases ran
      exact .inl ⟨z, took⟩
    · rw [stopped] at ran
      cases ran
  | elsewhere op mm space =>
    have ran : (Sys.onOs op.perform { s with mm, space }).Ends s' := step.ran
    obtain ⟨os, ends, rfl⟩ := Prog.zoom_ends ran
    have enrols := ProcOp.enrols step.enabled.1 s.os
    rw [show (op.perform s.os).state = os from ends.state_eq] at enrols
    exact .inr enrols

theorem numbered_step (step : system.Steps op s s') (h : s.os.Numbered) : s'.os.Numbered := by
  rcases step_cases step with ⟨z, took⟩ | enrols
  · exact took.numbered h
  · exact enrols.numbered h

theorem keeps_step (step : system.Steps op s s') : s.os.allIds ⊆ s'.os.allIds := by
  rcases step_cases step with ⟨z, took⟩ | enrols
  · exact took.allIds_perm.subset
  · exact enrols.allIds_subset

theorem numbered_run (run : system.Run (fun _ _ => True) s₀ s) (h : s₀.os.Numbered) : s.os.Numbered :=
  run.invariant h fun _ _ _ ih _ step => numbered_step step ih

theorem keeps_run (run : system.Run (fun _ _ => True) s₀ s) : s₀.os.allIds ⊆ s.os.allIds :=
  run.invariant (List.Subset.refl _) fun _ _ _ ih _ step => List.Subset.trans ih (keeps_step step)

/-- A process of the first state is still in the table, or has been reaped by one call. -/
structure Settled (s₀ s : Sys) (p : Process) : Prop where
  once : s.os.reaped.count p.id ≤ 1
  either : p.id ∈ s.os.processes.occupants.map (·.id) ↔ p.id ∉ s.os.reaped

theorem settled_run (run : system.Run (fun _ _ => True) s₀ s) (h : s₀.os.Numbered) {p : Process}
    (mem : p ∈ s₀.os.processes.occupants) (pos : p.id ≠ 0) : Settled s₀ s p := by
  have distinct := (numbered_run run h).distinct
  refine ⟨distinct.count_reaped pos, fun here reaped => ?_, fun left => ?_⟩
  · obtain ⟨q, mem_q, same⟩ := List.mem_map.mp here
    exact distinct.gone (same ▸ pos) (same ▸ reaped) mem_q
  · have start : p.id ∈ s₀.os.allIds := List.mem_append_right _ (List.mem_map_of_mem mem)
    exact (List.mem_append.mp (keeps_run run start)).resolve_left left

/-- In every run, every process is reaped at most once, by a call of its parent that delivers the status;
`wait4` keeps a child whose status it cannot deliver exactly if there is no such child, and the two calls
agree exactly if there is a child that both may report. -/
theorem reaping_iff (run : system.Run (fun _ _ => True) s₀ s) (numbered : s₀.os.Numbered) :
    (∀ p ∈ s₀.os.processes.occupants, p.id ≠ 0 → Settled s₀ s p) ∧ (∀ call, s.Exact call) ∧
      (∀ pid statusPtr, s.Withholds pid statusPtr ↔ s.Deliverable pid statusPtr) ∧
      ∀ pid, s.Agrees pid ↔ s.Answerable pid :=
  ⟨fun _ mem pos => settled_run run numbered mem pos, s.exact, s.withholds_iff, s.agrees_iff⟩

/-- A system after some calls, with no memory mapped. -/
def unmapped (ops : List ProcOp) : Sys where
  os := ProcOp.system.after Os.boot ops
  mm := ⟨fun _ => 0, 0, 0, 0, fun _ => .free, [], ⟨Slots.empty, 0⟩, 0, []⟩
  space _ := Space.newDummy

theorem unmapped_numbered : (unmapped Os.round).os.Numbered where
  distinct := by decide
  pos := by decide
  below := by decide

theorem reaping_iff_round : ∃ s, system.Run (fun _ _ => True) (unmapped Os.round) s ∧
    s.os.reaped = [2] ∧ ∀ p ∈ (unmapped Os.round).os.processes.occupants, p.id ≠ 0 →
      Settled (unmapped Os.round) s p := by
  have run : system.Run (fun _ _ => True) (unmapped Os.round)
      (perform (.wait (.procMgmt (-1))) (unmapped Os.round)).state :=
    Stepper.Run.start.step (.wait (.procMgmt (-1))) trivial
      ⟨trivial, Outcome.ends_state (by decide +kernel)⟩
  exact ⟨_, run, by decide +kernel, (reaping_iff run unmapped_numbered).1⟩

/-- A child is reaped although its status cannot be delivered, and a process without children is told by
one call to try again and by the other that there is no child. -/
theorem status_lost : ¬ (unmapped Os.round).Withholds (-1) 8 ∧
    ¬ (unmapped [.launch .done, .task .run]).Agrees (-1) := by
  rw [Sys.withholds_iff, Sys.agrees_iff]
  constructor
  · intro deliverable
    obtain ⟨t, cur, pid⟩ : ∃ t, (unmapped Os.round).os.sched.getCurrentThread = some t ∧ t.processId = 1 :=
      ⟨_, rfl, rfl⟩
    obtain ⟨z, found, word⟩ : ∃ z, (unmapped Os.round).os.firstZombie 1 (-1) = some z ∧
        Sys.statusWord z = 0 := ⟨_, rfl, rfl⟩
    rcases deliverable t z cur le_rfl (pid ▸ found) with null | ⟨mm, copied⟩
    · exact absurd null (by decide)
    · have refused : ((unmapped Os.round).copyStatus 1 8 z).value? = none := by
        unfold Sys.copyStatus
        rw [word]
        decide +kernel
      rw [← pid, copied] at refused
      cases refused
  · intro answerable
    obtain ⟨t, cur, pid⟩ : ∃ t, (unmapped [.launch .done, .task .run]).os.sched.getCurrentThread = some t ∧
        t.processId = 1 := ⟨_, rfl, rfl⟩
    have alone := answerable t cur
    rw [pid] at alone
    revert alone
    decide

end WaitOp

end CapsuleOS
