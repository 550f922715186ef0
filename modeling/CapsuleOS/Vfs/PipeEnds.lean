import Mathlib.Algebra.BigOperators.Fin
import CapsuleOS.Task.ProcessFrames
import CapsuleOS.Vfs.FdCalls

/-!
# Who holds the ends of a pipe

`Os.held` counts the descriptors of one end over all processes in the table. The counts of the pipe
table follow it (`Exact`) as long as no call goes wrong: `sys_pipe` must find two different slots, and
a process must have no descriptor left when it is reaped, since dropping it closes nothing.
-/
namespace CapsuleOS

open Lib

/-! ## Counting -/

namespace Process

/-- How many descriptors of the process are this one. -/
def held (p : Process) (e : FdEntry) : Nat := ∑ fd, if p.fdTable fd = some e then 1 else 0

variable {p q : Process} {e : FdEntry}

theorem held_congr (h : p.fdTable = q.fdTable) : p.held e = q.held e := by rw [held, held, h]

theorem held_empty (h : ∀ fd, p.fdTable fd = none) : p.held e = 0 := by simp [held, h]

/-- Filling a slot. -/
theorem held_update (p : Process) (fd : Fin fdTableSize) (entry e : FdEntry) :
    ({ p with fdTable := Function.update p.fdTable fd (some entry) } : Process).held e +
        (if p.fdTable fd = some e then 1 else 0) =
      p.held e + if entry = e then 1 else 0 := by
  have split : ∀ t : FdTable, (∑ i, if t i = some e then 1 else 0) =
      (if t fd = some e then 1 else 0) + ∑ i ∈ Finset.univ.erase fd, if t i = some e then 1 else 0 :=
    fun t => (Finset.add_sum_erase _ _ (Finset.mem_univ fd)).symm
  have rest : (∑ i ∈ Finset.univ.erase fd,
      if Function.update p.fdTable fd (some entry) i = some e then 1 else 0) =
      ∑ i ∈ Finset.univ.erase fd, if p.fdTable i = some e then 1 else 0 := by
    refine Finset.sum_congr rfl fun i mem => ?_
    rw [Function.update_of_ne (Finset.ne_of_mem_erase mem)]
  simp only [held]
  rw [split, split p.fdTable, rest, Function.update_self]
  simp only [Option.some.injEq]
  omega

theorem held_pos {fd : Fin fdTableSize} (here : p.fdTable fd = some e) : 1 ≤ p.held e := by
  have one := Finset.single_le_sum (f := fun i => if p.fdTable i = some e then 1 else 0)
    (fun _ _ => Nat.zero_le _) (Finset.mem_univ fd)
  rwa [if_pos here] at one

theorem held_two {fd fd' : Fin fdTableSize} (here : p.fdTable fd = some e)
    (there : p.fdTable fd' = some e) (ne : fd ≠ fd') : 2 ≤ p.held e := by
  have two := Finset.sum_le_univ_sum_of_nonneg (f := fun i => if p.fdTable i = some e then 1 else 0)
    (s := {fd, fd'}) fun _ => Nat.zero_le _
  rwa [Finset.sum_pair ne, if_pos here, if_pos there] at two

end Process

namespace Os

variable {s s' : Os} {p : Process} {pid : Nat} {e : FdEntry}

/-- How many descriptors of the processes in the table are this one. -/
def held (s : Os) (e : FdEntry) : Nat := (s.processes.occupants.map (·.held e)).sum

theorem held_ge (mem : p ∈ s.processes.occupants) : p.held e ≤ s.held e :=
  List.single_le_sum (fun _ _ => Nat.zero_le _) _ (List.mem_map_of_mem mem)

/-- An update of the process that a search finds. -/
theorem held_modify {f : Process → Process} (found : s.findProcess pid = some p) :
    ({ s with processes := s.processes.modify (·.id == pid) f } : Os).held e + p.held e =
      s.held e + (f p).held e := by
  rcases s.processes.modify_occupants (·.id == pid) f with ⟨out, _⟩ | ⟨l, a, r, eq, out, ha, eq'⟩
  · rw [findProcess, Slots.find?_eq] at found
    exact absurd (List.find?_some found) (out p (List.mem_of_find?_eq_some found))
  · obtain rfl : a = p := by
      rw [findProcess, Slots.find?_eq, eq, List.find?_append] at found
      have none_before : l.find? (·.id == pid) = none := List.find?_eq_none.mpr out
      simpa [none_before, List.find?_cons, ha] using found
    unfold held
    rw [eq, eq']
    simp only [List.map_append, List.map_cons, List.sum_append, List.sum_cons]
    omega

/-- The descriptors are the same. -/
def SameEnds (s s' : Os) : Prop := ∀ e, s'.held e = s.held e

instance : Std.Refl SameEnds := ⟨fun _ _ => rfl⟩

instance : IsTrans Os SameEnds := ⟨fun _ _ _ h h' e => (h' e).trans (h e)⟩

/-! ## Calls that leave the descriptors alone -/

theorem sameEnds_threadFree : ThreadFree SameEnds where
  tasks _ _ _ := rfl
  threadId _ _ _ := rfl

theorem updateProcess_ends {f : Process → Process} (keep : ∀ p, (f p).fdTable = p.fdTable) :
    Prog.Within SameEnds (updateProcess pid f) := by
  intro s e
  cases found : s.findProcess pid with
  | some p =>
    have moved := held_modify (e := e) (f := f) found
    rw [Process.held_congr (keep p)] at moved
    exact Nat.add_right_cancel moved
  | none =>
    rcases s.processes.modify_occupants (·.id == pid) f with ⟨_, same⟩ | ⟨l, a, r, eq, out, ha, _⟩
    · exact congrArg (fun ps => (ps.map (·.held e)).sum) same
    · rw [findProcess, Slots.find?_eq, eq] at found
      exact absurd ha (List.find?_eq_none.mp found a (by simp))

theorem insert_ends {new : Process} {processes : Slots Process maxProcesses}
    (put : s.processes.insert? new = some processes) (empty : ∀ fd, new.fdTable fd = none) (n : Nat) :
    SameEnds s { s with processes, processIdCounter := n } := by
  intro e
  unfold held
  rw [(List.Perm.map _ (Slots.insert?_perm put)).sum_eq, List.map_cons, List.sum_cons,
    Process.held_empty empty, Nat.zero_add]

theorem allocateProcess_ends (parentPid : Nat) (initError : Option Status) :
    Prog.Within SameEnds (allocateProcess parentPid initError) := by
  intro s
  unfold allocateProcess
  cases initError with
  | some e =>
    cases put : s.processes.insert? Process.newDummy with
    | some processes => exact insert_ends put (fun _ => rfl) s.processIdCounter
    | none => exact Std.Refl.refl s
  | none =>
    cases put : s.processes.insert? (Process.init s.processIdCounter parentPid) with
    | some processes => exact insert_ends put (fun _ => rfl) _
    | none => exact Std.Refl.refl s

theorem markProcessZombie_ends (pid : Nat) (code : Int) :
    Prog.Within SameEnds (markProcessZombie pid code) := updateProcess_ends fun _ => rfl

theorem signalSend_ends (pid sig : Nat) : Prog.Within SameEnds (signalSend pid sig) :=
  within_signalSend (updateProcess_ends fun _ => rfl)

theorem pause_ends : Prog.Within SameEnds pause := by
  have keep : ∀ p : Process, p.dispatchPending.2.fdTable = p.fdTable := by
    intro p
    rcases p.dispatchPending_cases with ⟨-, eq⟩ | ⟨-, eq⟩ <;> rw [eq]
    rfl
  exact sameEnds_threadFree.pause fun _ => updateProcess_ends keep

/-! ## Reaping -/

/-- The child that a wait call of the running process takes out of the table has no descriptor left. -/
def ReapsClean (s : Os) (pid : Int) : Prop := ∀ t p, s.sched.getCurrentThread = some t →
  (s.processes.find? fun p => p.isChild t.processId pid && p.reapable) = some p →
    ∀ fd, p.fdTable fd = none

theorem reap_ends {t : Tcb} {pid : Int} (running : s.sched.getCurrentThread = some t)
    (clean : s.ReapsClean pid) : SameEnds s (reap t.processId pid s).state := by
  unfold reap
  cases taken : s.processes.take? fun p => p.isChild t.processId pid && p.reapable with
  | none => exact Std.Refl.refl s
  | some r =>
    obtain ⟨p, processes⟩ := r
    intro e
    have sum := (List.Perm.map (·.held e) (Slots.take?_perm taken)).sum_eq
    rw [List.map_cons, List.sum_cons, Process.held_empty (clean t p running (Slots.take?_find taken)),
      Nat.zero_add] at sum
    exact sum.symm

end Os

end CapsuleOS
