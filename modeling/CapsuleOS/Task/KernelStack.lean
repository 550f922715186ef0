import CapsuleOS.Memory.PhysRun
import CapsuleOS.Object.Kernel
import CapsuleOS.Task.Launch

/-!
# Ranges of frames

A kernel stack and the slots of a handle table span several pages, and their owner keeps the address
of the first only. The allocator promises nothing about two calls in a row; the frames follow one
another because every frame from the cursor on is free, so that no call ever skips one.
-/
namespace CapsuleOS

open Lib

/-- Allocations one after the other, with the frames they return. -/
inductive Allocates : Mm → List Nat → Mm → Prop where
  | nil (mm : Mm) : Allocates mm [] mm
  | cons {mm mm' mm'' : Mm} {pas : List Nat} (tag : PageTag) (pa : Nat)
      (ok : allocPage tag mm = .ok pa mm') (rest : Allocates mm' pas mm'') :
      Allocates mm (pa :: pas) mm''

/-- Allocate `n` frames, at least one, and keep the address of the first. -/
def allocSpan (tag : PageTag) (n : Nat) : MmM Nat := do
  let first ← allocPage tag
  Prog.forEach (fun _ => do let _ ← allocPage tag) (List.range (n - 1))
  return first

/-- The stack of `Thread::new_user` and `Thread::new_kernel`. -/
def newKernelStack : MmM Nat := allocSpan .kernelStack kernelStackPages

/-- The pages of `HandleSlots::new`; the compiler chooses the size of a slot. -/
def newHandleSlots (slotSize : Nat) : MmM Nat :=
  if maxHandles * slotSize > pageSize then Prog.fault
  else do
    match ← Prog.attempt (allocSpan .kernelHeap ((maxHandles * slotSize + pageSize - 1) / pageSize)) with
    | .ok first => return first
    | .error _ => Prog.fault

/-- A call that took `mm` to `mm'` owns the `n` bytes at `p`: they lie in frames that it was handed
out and that nobody held. -/
def Owns (mm₀ mm : Mm) (live : List Nat) (p n : Nat) (mm' : Mm) : Prop :=
  ∃ pas, Allocates mm pas mm' ∧ AllocRun mm₀ mm' (pas.reverse ++ live) ∧ pas.Nodup ∧
    (∀ q ∈ pas, q ∉ live) ∧ ∀ a, p ≤ a → a < p + n → ∃ q ∈ pas, q ≤ a ∧ a < q + pageSize

variable {mm₀ mm mm' : Mm} {live pas : List Nat} {tag : PageTag} {pa : Nat}

/-! ## Frames follow one another -/

/-- The frame under the cursor is free, so it is the one handed out. -/
theorem Mm.UsedBelow.allocPage (h : mm.UsedBelow) (ok : allocPage tag mm = .ok pa mm') :
    pa = mm.nextFreePage ∧ mm' = mm.claim tag pa := by
  rw [CapsuleOS.allocPage, allocLoop] at ok
  dsimp only at ok
  split_ifs at ok with range pfn used live
  · have lt : mm.nextFreePage < 2 ^ 64 := by
      have := h.wf.end_lt
      omega
    exact absurd (h.cursor_free lt (by omega)) used
  · cases ok
    exact ⟨rfl, rfl⟩

theorem Mm.UsedBelow.candidate (h : mm.UsedBelow) (ok : CapsuleOS.allocPage tag mm = .ok pa mm') :
    mm.Candidate pa := by
  have result := allocPage_result tag mm h.wf.end_lt
  rw [ok] at result
  cases result with
  | taken _ cand => exact cand

theorem Allocates.eq_range (allocs : Allocates mm pas mm') (h : mm.UsedBelow) :
    pas = (List.range pas.length).map (mm.nextFreePage + 4096 * ·) := by
  induction allocs with
  | nil => rfl
  | @cons mm mm₁ mm₂ pas tag pa ok rest ih =>
    have cand := h.candidate ok
    obtain ⟨rfl, rfl⟩ := h.allocPage ok
    have later := ih (h.claim cand tag)
    rw [List.length_cons, List.range_succ_eq_map, List.map_cons, List.map_map, Nat.mul_zero,
      Nat.add_zero]
    refine congrArg (_ :: ·) (later.trans (List.map_congr_left fun i _ => ?_))
    simp only [Mm.claim, Function.comp_apply]
    omega

theorem Allocates.run (allocs : Allocates mm pas mm') (run : AllocRun mm₀ mm live) :
    AllocRun mm₀ mm' (pas.reverse ++ live) := by
  induction allocs generalizing live with
  | nil => exact run
  | cons tag pa ok rest ih =>
    have next := ih (run.alloc tag pa ok)
    rwa [List.reverse_cons, List.append_assoc, List.singleton_append]

/-- Frames that are held lie below the cursor. -/
theorem AllocRun.live_below (run : AllocRun mm₀ mm live) (wf : mm₀.WF) :
    ∀ q ∈ live, q < mm.nextFreePage := by
  have start : mm₀.Walked mm₀.nextFreePage mm₀.endFreePage [] :=
    ⟨le_rfl, by simp, rfl, fun _ mem => by cases mem⟩
  exact (run.walked start wf.end_lt).below

theorem Allocates.mem_range (allocs : Allocates mm pas mm') (h : mm.UsedBelow) {q : Nat}
    (mem : q ∈ pas) : ∃ i < pas.length, q = mm.nextFreePage + 4096 * i := by
  rw [allocs.eq_range h] at mem
  obtain ⟨i, lt, rfl⟩ := List.mem_map.mp mem
  exact ⟨i, List.mem_range.mp lt, rfl⟩

theorem Allocates.not_live (allocs : Allocates mm pas mm') (booted : mm₀.Booted)
    (run : AllocRun mm₀ mm live) : ∀ q ∈ pas, q ∉ live := by
  intro q mem held
  have below := run.live_below booted.wf q held
  obtain ⟨i, _, rfl⟩ := allocs.mem_range (run.usedBelow booted.usedBelow) mem
  omega

/-- What a call owns that was handed out frames one after the other. -/
theorem Allocates.owns (allocs : Allocates mm pas mm') (booted : mm₀.Booted)
    (run : AllocRun mm₀ mm live) (n : Nat) (le : n ≤ pas.length * pageSize) :
    Owns mm₀ mm live mm.nextFreePage n mm' := by
  have eq := allocs.eq_range (run.usedBelow booted.usedBelow)
  refine ⟨pas, allocs, allocs.run run, ?_, allocs.not_live booted run, fun a ge lt => ?_⟩
  · rw [eq]
    exact List.nodup_range.map fun i j same => by simpa using same
  · unfold pageSize at le ⊢
    refine ⟨mm.nextFreePage + 4096 * ((a - mm.nextFreePage) / 4096), ?_, by omega, by omega⟩
    rw [eq]
    exact List.mem_map_of_mem (List.mem_range.mpr (by omega))

/-! ## Stacks and handle tables -/

theorem forEach_allocates {is : List Nat}
    (ok : Prog.forEach (fun _ => do let _ ← allocPage tag) is mm = .ok () mm') :
    ∃ pas, pas.length = is.length ∧ Allocates mm pas mm' := by
  induction is generalizing mm with
  | nil =>
    cases ok
    exact ⟨[], rfl, .nil _⟩
  | cons i is ih =>
    obtain ⟨_, mm₁, first, rest⟩ := Prog.bind_eq_ok ok
    obtain ⟨pa, mm₂, taken, same⟩ := Prog.bind_eq_ok first
    cases same
    obtain ⟨pas, length, allocs⟩ := ih rest
    exact ⟨pa :: pas, by rw [List.length_cons, length, List.length_cons], .cons tag pa taken allocs⟩

theorem allocSpan_allocates {n : Nat} {p : Nat} (ok : allocSpan tag n mm = .ok p mm') :
    ∃ pas, n ≤ (p :: pas).length ∧ Allocates mm (p :: pas) mm' := by
  obtain ⟨first, mm₁, taken, rest⟩ := Prog.bind_eq_ok ok
  obtain ⟨_, mm₂, others, same⟩ := Prog.bind_eq_ok rest
  cases same
  obtain ⟨pas, length, allocs⟩ := forEach_allocates others
  refine ⟨pas, ?_, .cons tag _ taken allocs⟩
  rw [List.length_cons, length, List.length_range]
  omega

theorem allocSpan_owns (booted : mm₀.Booted) (run : AllocRun mm₀ mm live) {n p : Nat}
    (ok : allocSpan tag n mm = .ok p mm') {bytes : Nat} (le : bytes ≤ n * pageSize) :
    Owns mm₀ mm live p bytes mm' := by
  obtain ⟨pas, length, allocs⟩ := allocSpan_allocates ok
  have eq := allocs.eq_range (run.usedBelow booted.usedBelow)
  have first : p = mm.nextFreePage := by
    rw [List.length_cons, List.range_succ_eq_map, List.map_cons] at eq
    exact (List.cons.inj eq).1
  rw [first]
  exact allocs.owns booted run bytes (le.trans (Nat.mul_le_mul_right _ length))

theorem newHandleSlots_span {slotSize p : Nat} (ok : newHandleSlots slotSize mm = .ok p mm') :
    allocSpan .kernelHeap ((maxHandles * slotSize + pageSize - 1) / pageSize) mm = .ok p mm' := by
  unfold newHandleSlots at ok
  split_ifs at ok
  · cases ok
  · obtain ⟨r, mm₁, tried, rest⟩ := Prog.bind_eq_ok ok
    generalize allocSpan .kernelHeap ((maxHandles * slotSize + pageSize - 1) / pageSize) = span at tried
    unfold Prog.attempt at tried
    cases ran : span mm <;> rw [ran] at tried <;> cases tried
    · cases rest
      rfl
    · cases rest

/-- After any run of the allocator, successful calls in a row return frames one after the other, none
of which anyone holds; so a kernel stack and the slots of a handle table lie in frames of their own. -/
theorem allocations_contiguous {b : BootInfo} {mem : Mem} (init : Mm.init b mem = some mm₀)
    (run : AllocRun mm₀ mm live) :
    (∀ pas mm', Allocates mm pas mm' →
      ∃ p, pas = (List.range pas.length).map (p + 4096 * ·) ∧ ∀ q ∈ pas, q ∉ live) ∧
    (∀ p mm', newKernelStack mm = .ok p mm' →
      Owns mm₀ mm live p (kernelStackPages * pageSize) mm') ∧
    ∀ slotSize p mm', newHandleSlots slotSize mm = .ok p mm' →
      Owns mm₀ mm live p (maxHandles * slotSize) mm' := by
  have booted := init_booted init
  refine ⟨fun pas mm' allocs => ?_, fun p mm' ok => ?_, fun slotSize p mm' ok => ?_⟩
  · exact ⟨mm.nextFreePage, allocs.eq_range (run.usedBelow booted.usedBelow),
      allocs.not_live booted run⟩
  · exact allocSpan_owns booted run ok le_rfl
  · refine allocSpan_owns booted run (newHandleSlots_span ok) ?_
    unfold pageSize
    omega

/-- Two frames in a row, right after boot. -/
theorem allocations_contiguous_boot : ∃ mm₀ mm' pas, Mm.init BootInfo.virt (fun _ => 0) = some mm₀ ∧
    Allocates mm₀ pas mm' ∧ pas.length = 2 ∧ ∃ p, pas = (List.range 2).map (p + 4096 * ·) := by
  obtain ⟨mm₀, init, fresh⟩ := init_leaves BootInfo.virt_serves.toLeaves fun _ => 0
  have ready := fresh.ready
  have first := ready.alloc (by decide) (by decide) (by decide) .kernelStack
  have next := ready.claim (by decide) (by decide) .kernelStack
  have second := next.alloc (by decide) (by decide) (by decide) .kernelStack
  have allocs := Allocates.cons .kernelStack _ first (.cons .kernelStack _ second (.nil _))
  obtain ⟨p, eq, _⟩ := (allocations_contiguous init .start).1 _ _ allocs
  exact ⟨mm₀, _, _, init, allocs, rfl, p, eq⟩

end CapsuleOS
