import CapsuleOS.Task.Launch
import CapsuleOS.Task.ProcessRuns

/-!
# What a failed launch leaves behind

A launch takes a slot of the process table first, and masks interrupts when the new root is there.
Each of its later steps may return early, and none of them gives anything back: the mask is restored
in the last lines only, and nothing ever takes the process out of its slot. So a failed launch leaves
no trace just when it fails before it has a slot.
-/
namespace CapsuleOS

open Lib

/-! ## The interrupt mask -/

/-- `irqMasked` is the I bit of `DAIF`. -/
structure Cpu where
  sys : Sys
  irqMasked : Bool

abbrev CpuM := Prog Cpu Status

namespace Cpu

def onSys {α : Type} (m : SysM α) : CpuM α := Prog.zoom Cpu.sys (fun sys c => { c with sys }) m

def localIrqSave : CpuM Bool := do
  let c ← Prog.get
  Prog.modify fun c => { c with irqMasked := true }
  return c.irqMasked

def localIrqRestore (flags : Bool) : CpuM Unit := Prog.modify fun c => { c with irqMasked := flags }

/-- `launch_user_program_with_argv_id` with the places where it masks and unmasks interrupts. -/
def launchUserProgram (image : Option Image) (argv : Argv) (active parentPid : Nat) : CpuM Nat :=
  match image with
  | none => Prog.throw .invalidArgs
  | some image => do
    let pid ← onSys (Sys.allocateProcess parentPid)
    onSys (Sys.setupTree pid active)
    let irqFlags ← localIrqSave
    onSys (Prog.forEach (Sys.loadEntry pid) image.entries)
    onSys (Sys.withVmo stackSize (Sys.startThread pid argv))
    localIrqRestore irqFlags
    return pid

/-- The mask has no influence on the rest of the state. -/
theorem launchUserProgram_sys (image : Option Image) (argv : Argv) (active parentPid : Nat) :
    Prog.Lifts Cpu.sys (launchUserProgram image argv active parentPid)
      (Sys.launch image argv active parentPid) := by
  have onSys_lifts : ∀ {α : Type} (m : SysM α), Prog.Lifts Cpu.sys (onSys m) m :=
    fun m => .zoom m fun _ _ => rfl
  cases image with
  | none => exact .throw _
  | some image =>
    refine (onSys_lifts _).bind fun pid => (onSys_lifts _).bind fun _ => ?_
    refine Prog.Lifts.skip (fun c => ⟨_, _, rfl, rfl⟩) fun flags => ?_
    refine (onSys_lifts _).bind fun _ => (onSys_lifts _).bind fun _ => ?_
    exact Prog.Lifts.skip (fun c => ⟨_, _, rfl, rfl⟩) fun _ => .pure pid

end Cpu

/-! ## The process table -/

def Sys.SameProcesses (s s' : Sys) : Prop := s'.os.processes = s.os.processes

/-- The same with a local object beside the state. -/
def Scope.SameProcesses (t t' : Scope) : Prop := t.sys.SameProcesses t'.sys

instance : Std.Refl Sys.SameProcesses := ⟨fun _ => rfl⟩

instance : IsTrans Sys Sys.SameProcesses := ⟨fun _ _ _ h h' => h'.trans h⟩

instance : Std.Refl Scope.SameProcesses := ⟨fun _ => rfl⟩

instance : IsTrans Scope Scope.SameProcesses := ⟨fun _ _ _ h h' => h'.trans h⟩

namespace Sys

theorem onMm_same {α : Type} (m : MmM α) : Prog.Within SameProcesses (onMm m) :=
  Prog.Within.zoom (S := fun _ _ => True) (fun _ => trivial) fun _ _ _ => rfl

theorem onTree_same {α : Type} (pid : Nat) (m : TreeM α) :
    Prog.Within SameProcesses (onTree pid m) :=
  Prog.Within.zoom (S := fun _ _ => True) (fun _ => trivial) fun _ _ _ => rfl

theorem onVmo_same {α : Type} (m : VmoM α) : Prog.Within Scope.SameProcesses (Scope.onVmo m) :=
  Prog.Within.zoom (S := fun _ _ => True) (fun _ => trivial) fun _ _ _ => rfl

theorem onSys_same {α : Type} {m : SysM α} (hm : Prog.Within SameProcesses m) :
    Prog.Within Scope.SameProcesses (Scope.onSys m) := hm.zoom fun _ _ same => same

theorem onOs_same {α : Type} {m : OsM α}
    (hm : Prog.Within (fun os os' : Os => os'.processes = os.processes) m) :
    Prog.Within SameProcesses (onOs m) := hm.zoom fun _ _ same => same

theorem withVmo_same (size : Nat) {body : ScopeM Unit} (hbody : Prog.Within Scope.SameProcesses body) :
    Prog.Within SameProcesses (withVmo size body) := by
  refine (onMm_same _).bind fun v s => ?_
  have inner := hbody ⟨v, s⟩
  have drop : ∀ t : Scope, SameProcesses t.sys (dropVmo t.vmo t.sys).state := fun t => onMm_same _ _
  cases run : body ⟨v, s⟩ with
  | ok a t =>
    rw [run] at inner
    exact (drop t).trans inner
  | err e t =>
    rw [run] at inner
    exact ((onMm_same t.vmo.drop).bind (fun _ => .throw e) t.sys).trans inner
  | fault t =>
    rw [run] at inner
    exact inner

theorem reserve_same (pid vmoId vmoOffset va size : Nat) (flags : VmarFlags) :
    Prog.Within SameProcesses (reserve pid vmoId vmoOffset va size flags) := by
  intro s
  unfold reserve
  cases (s.space pid).vmar.reserveMapping vmoId vmoOffset va size flags <;> exact rfl

theorem mapOne_same (pid va : Nat) (flags : MapFlags) (i : Nat) :
    Prog.Within Scope.SameProcesses (mapOne pid va flags i) := by
  refine Prog.Within.get.bind fun t => ?_
  cases t.vmo.getPagePhys t.sys.mm.mem (i * pageSize) with
  | none => exact .fault
  | some pa => exact onSys_same (onTree_same pid _)

theorem mapObject_same (pid offset size : Nat) (flags : VmarFlags) (mapFlags : MapFlags) :
    Prog.Within Scope.SameProcesses (mapObject pid offset size flags mapFlags) := by
  refine Prog.Within.get.bind fun t => (onSys_same (reserve_same _ _ _ _ _ _)).bind fun _ => ?_
  exact .forEach fun i _ => mapOne_same pid _ mapFlags i

theorem setupTree_same (pid active : Nat) : Prog.Within SameProcesses (setupTree pid active) := by
  have device : ∀ va pa flags, Prog.Within SameProcesses (tryMap pid va pa flags) :=
    fun va pa flags => (Prog.Within.attempt (onTree_same pid _)).bind fun _ => .pure ()
  refine (onTree_same pid _).bind fun _ => (device _ _ _).bind fun _ => (device _ _ _).bind fun _ => ?_
  split_ifs
  · exact (onTree_same pid _).bind fun _ => onTree_same pid _
  · exact .pure ()

theorem loadEntry_same (pid : Nat) (entry : Option Segment) :
    Prog.Within SameProcesses (loadEntry pid entry) := by
  cases entry with
  | none => exact .pure ()
  | some g =>
    have fill : Prog.Within Scope.SameProcesses (fillSegment g) := by
      unfold fillSegment
      split_ifs
      · cases g.payload with
        | none => exact .throw _
        | some bytes => exact (onVmo_same _).bind fun _ => .pure ()
      · exact .pure ()
    change Prog.Within SameProcesses (loadSegment pid g)
    unfold loadSegment
    split_ifs
    · exact withVmo_same _ ((onVmo_same _).bind fun _ => fill.bind fun _ => mapObject_same _ _ _ _ _)
    · exact .pure ()

theorem startThread_same (pid : Nat) (argv : Argv) :
    Prog.Within Scope.SameProcesses (startThread pid argv) := by
  have touch : Prog.Within SameProcesses (touchStack pid) := by
    intro s
    unfold touchStack
    simp only [Prog.modify_apply, Outcome.state_ok]
    split <;> rfl
  have thread : Prog.Within SameProcesses (newUserThread pid) :=
    (Prog.Within.forEach fun _ _ => onMm_same _).bind fun _ => onOs_same fun _ => rfl
  have add : ∀ t : Tcb, Prog.Within SameProcesses (onOs (Os.onSched (Scheduler.add t))) := by
    refine fun t => onOs_same ?_
    exact Prog.Within.zoom (S := fun _ _ => True) (fun _ => trivial) fun _ _ _ => rfl
  refine (onVmo_same _).bind fun _ => (mapObject_same _ _ _ _ _).bind fun _ => ?_
  refine (onSys_same touch).bind fun _ => (onSys_same thread).bind fun thread => ?_
  refine Prog.Within.get.bind fun t => (onSys_same (onMm_same _)).bind fun _ => ?_
  exact onSys_same (add thread)

/-- One more slot is in use. -/
def Taken (s s' : Sys) : Prop :=
  s'.os.processes.occupants.length = s.os.processes.occupants.length + 1

theorem Taken.same {s s' s'' : Sys} (h : s.Taken s') (same : s'.SameProcesses s'') : s.Taken s'' := by
  unfold Taken
  rw [same]
  exact h

theorem hasSlot_iff {s : Sys} : s.hasSlot = true ↔ ¬ s.os.processes.Full := by
  rw [hasSlot, Option.isSome_iff_ne_none, ne_eq, Slots.insert?_eq_none]

/-- With or without an error of `init_in_place`, the slot is in use afterwards. -/
theorem osAllocate_taken {s s' : Os} {parentPid : Nat} {initError : Option Status}
    (slot : ¬ s.processes.Full) (ends : (Os.allocateProcess parentPid initError s).Ends s') :
    s'.processes.occupants.length = s.processes.occupants.length + 1 := by
  have insert : ∀ p t, s.processes.insert? p = some t →
      t.occupants.length = s.processes.occupants.length + 1 := fun p t put => by
    rw [(Slots.insert?_perm put).length_eq, List.length_cons]
  have room : ∀ p, s.processes.insert? p ≠ none := fun p none => slot (Slots.insert?_eq_none.mp none)
  unfold Os.allocateProcess at ends
  cases initError with
  | some e =>
    cases put : s.processes.insert? Process.newDummy with
    | none => exact absurd put (room _)
    | some t =>
      simp only [put] at ends
      cases ends
      exact insert _ t put
  | none =>
    cases put : s.processes.insert? (Process.init s.processIdCounter parentPid) with
    | none => exact absurd put (room _)
    | some t =>
      simp only [put] at ends
      cases ends
      exact insert _ t put

theorem allocateProcess_full {s : Sys} (parentPid : Nat) (full : s.hasSlot = false) :
    allocateProcess parentPid s = .err .noMemory s := by
  unfold allocateProcess
  rw [Prog.bind_ok (Prog.get_apply s), full]
  rfl

/-- Without a frame for the slots there is a panic instead of an error. -/
theorem newHandleTable_noErr : Prog.NoErr newHandleTable := by
  refine (Prog.NoErr.attempt _).bind fun made => ?_
  cases made with
  | ok pa => exact .pure pa
  | error e => exact fun _ _ _ h => nomatch h

theorem allocateProcess_taken {s s' : Sys} {parentPid : Nat} (slot : s.hasSlot = true)
    (ends : (allocateProcess parentPid s).Ends s') : s.Taken s' := by
  have free := hasSlot_iff.mp slot
  have table : ∀ {u t : Sys} {initError : Option Status}, s.SameProcesses u →
      (onOs (Os.allocateProcess parentPid initError) u).Ends t → s.Taken t := by
    intro u t initError same ends
    obtain ⟨os, inner, rfl⟩ := Prog.zoom_ends ends
    have taken := osAllocate_taken (by rw [same]; exact free) inner
    rwa [same] at taken
  unfold allocateProcess at ends
  rw [Prog.bind_ok (Prog.get_apply s), slot] at ends
  simp only [Bool.not_true, Bool.false_eq_true, if_false] at ends
  rcases Prog.bind_ends ends with ⟨e, err⟩ | ⟨made, u, ok, rest⟩
  · exact absurd err (Prog.NoErr.attempt _ s e s')
  have same : s.SameProcesses u := by
    have within := (onMm_same (Vmar.create 0 (256 * 1024 * 1024))).attempt s
    rwa [ok] at within
  cases made with
  | error e => exact table same rest
  | ok vmar =>
    rcases Prog.bind_ends rest with ⟨e, err⟩ | ⟨handles, v, ok', rest⟩
    · exact absurd err (newHandleTable_noErr.zoom u e s')
    have same' : s.SameProcesses v := by
      have within := onMm_same newHandleTable u
      rw [ok'] at within
      exact within.trans same
    rcases Prog.bind_ends rest with ⟨e, err⟩ | ⟨pid, w, ok'', rest⟩
    · exact table same' (Outcome.ends_of_err err)
    · cases rest
      have taken := table same' (Outcome.ends_of_ok ok'')
      exact taken.same rfl

theorem failed_launch_taken {s s' : Sys} {image : Image} {argv : Argv} {active parentPid : Nat}
    {e : Status} (slot : s.hasSlot = true)
    (run : launch (some image) argv active parentPid s = .err e s') : s.Taken s' := by
  rcases Prog.bind_eq_err run with stop | ⟨pid, u, ok, rest⟩
  · exact allocateProcess_taken slot (Outcome.ends_of_err stop)
  · have later : Prog.Within SameProcesses (do
        setupTree pid active
        Prog.forEach (loadEntry pid) image.entries
        withVmo stackSize (startThread pid argv)
        return pid) :=
      (setupTree_same pid active).bind fun _ =>
        (Prog.Within.forEach fun entry _ => loadEntry_same pid entry).bind fun _ =>
          (withVmo_same _ (startThread_same pid argv)).bind fun _ => .pure pid
    have same := later u
    rw [rest] at same
    exact (allocateProcess_taken slot (Outcome.ends_of_ok ok)).same same

end Sys

/-! ## Traces -/

namespace Cpu

/-- The tables, the frames and the interrupt mask are as before. -/
structure NoTrace (c c' : Cpu) : Prop where
  processes : c'.sys.os.processes = c.sys.os.processes
  threads : c'.sys.os.tasks = c.sys.os.tasks
  pageTags : c'.sys.mm.pageTags = c.sys.mm.pageTags
  freePages : c'.sys.mm.freePagesCount = c.sys.mm.freePagesCount
  irqMasked : c'.irqMasked = c.irqMasked

theorem NoTrace.refl (c : Cpu) : NoTrace c c := ⟨rfl, rfl, rfl, rfl, rfl⟩

/-- A failed launch leaves no trace just when it never had a slot. -/
theorem failed_launch_no_trace_iff {c c' : Cpu} {image : Option Image} {argv : Argv}
    {active parentPid : Nat} {e : Status}
    (run : launchUserProgram image argv active parentPid c = .err e c') :
    NoTrace c c' ↔ image = none ∨ c.sys.hasSlot = false := by
  constructor
  · intro kept
    by_contra trace
    obtain ⟨accepted, slot⟩ := not_or.mp trace
    obtain ⟨image, rfl⟩ := Option.ne_none_iff_exists'.mp accepted
    have lifted := launchUserProgram_sys (some image) argv active parentPid c
    rw [run] at lifted
    have taken := Sys.failed_launch_taken (by simpa using slot) lifted.symm
    rw [Sys.Taken, kept.processes] at taken
    omega
  · rintro (rfl | full)
    · cases run
      exact .refl c
    · cases image with
      | none =>
        cases run
        exact .refl c
      | some image =>
        have stop : onSys (Sys.allocateProcess parentPid) c = .err .noMemory c := by
          simp only [onSys, Prog.zoom, Sys.allocateProcess_full parentPid full]
        have whole : launchUserProgram (some image) argv active parentPid c = .err .noMemory c :=
          Prog.bind_err stop
        rw [whole] at run
        cases run
        exact .refl c

/-- The kernel after boot, with 510 MiB of free memory. -/
def boot : Cpu where
  sys := ⟨Os.boot, Mm.boot 0x40200000 0x60000000, fun _ => Space.newDummy⟩
  irqMasked := false

/-- A text segment whose bytes are not all in the file. -/
def truncated : Image := ⟨[some ⟨Segment.typeText, 0x400000, 8, 8, none⟩]⟩

def noArgs : Argv := ⟨[], by decide, by decide⟩

def launchTruncated : Outcome Cpu Status Nat := launchUserProgram (some truncated) noArgs 0 0 boot

theorem launchTruncated_err : launchTruncated = .err .invalidArgs launchTruncated.state :=
  Outcome.eq_err_of_error? (by decide +kernel)

theorem failed_launch_no_trace_truncated : ¬ NoTrace boot launchTruncated.state := by
  rw [failed_launch_no_trace_iff launchTruncated_err]
  decide +kernel

theorem failed_launch_keeps_slot : ¬ ∀ (c c' : Cpu) (image : Option Image) (argv : Argv)
    (active parentPid : Nat) (e : Status),
    launchUserProgram image argv active parentPid c = .err e c' → NoTrace c c' := by
  intro claim
  have kept := (claim _ _ _ _ _ _ _ launchTruncated_err).processes
  have occupied : boot.sys.os.processes.occupants.length ≠
      launchTruncated.state.sys.os.processes.occupants.length := by decide +kernel
  exact occupied (by rw [kept])

end Cpu

end CapsuleOS
