import CapsuleOS.Lib.Fields
import CapsuleOS.Memory.PhysRun

/-!
# Indices into the tag array

The array has a tag for each frame of the 512 MiB at `0x40000000`. The cursor walks over what the
device tree says is RAM, and its frames are looked up in the array whatever their address.
-/
namespace CapsuleOS

open Lib

/-! ## The memory node -/

def defaultRamBase : Nat := 0x40000000
def defaultRamSize : Nat := 512 * 1024 * 1024

/-- `u64::from_be_bytes`. -/
def fromBeBytes (bytes : List UInt8) : Nat := Mem.ofBytes bytes.reverse

/-- Base and size of the RAM that `fdt::parse` reports, from the `reg` property of the memory node. -/
def ramOfReg (reg : Option (List UInt8)) : Nat × Nat :=
  match reg with
  | some reg =>
    if reg.length ≥ 16 then (fromBeBytes (slice reg 0 8), fromBeBytes (slice reg 8 16))
    else (defaultRamBase, defaultRamSize)
  | none => (defaultRamBase, defaultRamSize)

/-- The `reg` property that gives this base and size. -/
def regOf (base size : Nat) : List UInt8 := (Mem.toBytes 8 base).reverse ++ (Mem.toBytes 8 size).reverse

/-- Every base and size of 64 bits can be reported. -/
theorem ramOfReg_regOf {base size : Nat} (hb : base < 2 ^ 64) (hs : size < 2 ^ 64) :
    ramOfReg (some (regOf base size)) = (base, size) := by
  have word : ∀ v, v < 2 ^ 64 → fromBeBytes (Mem.toBytes 8 v).reverse = v := by
    intro v lt
    rw [fromBeBytes, List.reverse_reverse, Mem.ofBytes_toBytes]
    exact Nat.mod_eq_of_lt (by simpa using lt)
  have first : slice (regOf base size) 0 8 = (Mem.toBytes 8 base).reverse :=
    slice_front (by simp)
  have second : slice (regOf base size) 8 16 = (Mem.toBytes 8 size).reverse := by
    rw [regOf, slice_append (by simp), List.length_reverse, Mem.toBytes_length]
    exact slice_whole (by simp)
  rw [ramOfReg, if_pos (by simp [regOf]), first, second, word base hb, word size hs]

/-! ## The indices of a call -/

inductive FrameCall where
  | alloc (tag : PageTag)
  | free (pa : Nat)

/-- The addresses that the loop of `alloc_page` looks up, in order; the first one outside of the array
ends it. -/
def lookups : Nat → Mm → List Nat
  | 0, _ => []
  | fuel + 1, mm =>
    let pa := mm.nextFreePage
    if pa = 0 ∨ pa ≥ mm.endFreePage then []
    else if paToPfn pa ≥ maxPages then [pa]
    else if mm.tag pa ≠ .free then pa :: lookups fuel { mm with nextFreePage := pa + 4096 }
    else [pa]

/-- The addresses whose tag a call reads. -/
def FrameCall.lookups (mm : Mm) : FrameCall → List Nat
  | .alloc _ => CapsuleOS.lookups ((mm.endFreePage - mm.nextFreePage) / 4096 + 2) mm
  | .free pa => [pa]

/-- The subtraction of `pa_to_pfn` does not wrap, and its result is an index of the array. -/
def HasTag (pa : Nat) : Prop := ramBase ≤ pa ∧ paToPfn pa < maxPages

/-- A page is only freed if it lies in the RAM that the array is made for. -/
def FrameCall.InTags : FrameCall → Prop
  | .alloc _ => True
  | .free pa => ramBase ≤ pa ∧ pa < ramBase + ramSize

/-- Every call after any run looks up frames that have a tag. -/
def BootInfo.IndexesTags (b : BootInfo) (allowed : FrameCall → Prop) : Prop :=
  ∀ mem mm₀ mm live call, Mm.init b mem = some mm₀ → AllocRun mm₀ mm live → allowed call →
    ∀ pa ∈ call.lookups mm, HasTag pa

/-- The frames behind the kernel image lie where the array has tags for them. -/
structure BootInfo.TagsCover (b : BootInfo) : Prop where
  base : CapsuleOS.ramBase ≤ b.firstFree
  stop : b.endFree ≤ CapsuleOS.ramBase + CapsuleOS.ramSize

variable {b : BootInfo} {mm₀ mm mm' : Mm} {live : List Nat} {pa : Nat}

theorem hasTag_of_ram (ge : ramBase ≤ pa) (lt : pa < ramBase + ramSize) : HasTag pa := by
  refine ⟨ge, ?_⟩
  unfold ramBase ramSize at *
  rw [paToPfn_of_ge ge (by omega)]
  unfold maxPages ramSize ramBase
  omega

theorem HasTag.lt_ram (h : HasTag pa) (lt : pa < 2 ^ 64) : pa < ramBase + ramSize :=
  (ram_of_paToPfn h.2 lt).2

theorem lookups_exhausted (h : mm.Exhausted) (fuel : Nat) : lookups fuel mm = [] := by
  have stop : mm.nextFreePage = 0 ∨ mm.nextFreePage ≥ mm.endFreePage := h
  cases fuel with
  | zero => rfl
  | succ fuel => rw [lookups, if_pos stop]

/-- Only the frame under the cursor is looked up. -/
theorem lookups_cursor (h : mm.UsedBelow) (more : ¬ mm.Exhausted) (fuel : Nat) :
    lookups (fuel + 1) mm = [mm.nextFreePage] := by
  have go : ¬ (mm.nextFreePage = 0 ∨ mm.nextFreePage ≥ mm.endFreePage) := more
  have lt : mm.nextFreePage < 2 ^ 64 := by
    have := h.wf.end_lt
    omega
  rw [lookups, if_neg go]
  by_cases out : paToPfn mm.nextFreePage ≥ maxPages
  · rw [if_pos out]
  · rw [if_neg out, if_neg (not_not.mpr (h.cursor_free lt (by omega)))]

/-- The frames behind the image have tags: then a run only looks up frames that do. -/
theorem BootInfo.TagsCover.indexes (cover : b.Leaves → b.firstFree ≠ 0 → b.TagsCover) :
    b.IndexesTags FrameCall.InTags := by
  intro mem mm₀ mm live call init run allowed pa looked
  cases call with
  | free q =>
    obtain rfl : pa = q := List.mem_singleton.mp looked
    exact hasTag_of_ram allowed.1 allowed.2
  | alloc tag =>
    have used := run.usedBelow (init_booted init).usedBelow
    by_cases stop : mm.Exhausted
    · rw [FrameCall.lookups, lookups_exhausted stop] at looked
      cases looked
    · rw [FrameCall.lookups, lookups_cursor used stop, List.mem_singleton] at looked
      have leaves : b.Leaves := by
        by_contra none_left
        exact stop (run.exhausted (init_exhausted none_left init))
      obtain ⟨mm₁, init', fresh⟩ := init_leaves leaves mem
      rw [init] at init'
      cases init'
      have walked := run.walked fresh.walked leaves.endFree_lt
      have nonzero : b.firstFree ≠ 0 := by
        intro zero
        exact stop (run.exhausted (Or.inl (fresh.next_eq.trans zero)))
      have covered := cover leaves nonzero
      have ge := covered.base.trans walked.ge_first
      have lt : mm.nextFreePage < b.endFree := by
        have := walked.end_eq
        unfold Mm.Exhausted at stop
        omega
      rw [looked]
      exact hasTag_of_ram ge (lt.trans_le covered.stop)

/-- A machine whose first free page has a tag, but which has more RAM than tags: some run takes the
cursor to the end of the array. -/
theorem BootInfo.Leaves.overrun (leaves : b.Leaves) (ge : CapsuleOS.ramBase ≤ b.firstFree)
    (lt : b.firstFree < CapsuleOS.ramBase + CapsuleOS.ramSize)
    (more : CapsuleOS.ramBase + CapsuleOS.ramSize < b.endFree) :
    ¬ b.IndexesTags FrameCall.InTags := by
  intro safe
  obtain ⟨mm₀, init, fresh⟩ := init_leaves leaves fun _ => 0
  have aligned := b.firstFree_aligned
  obtain ⟨k, last⟩ : ∃ k, b.firstFree + 4096 * k + 4096 = CapsuleOS.ramBase + CapsuleOS.ramSize := by
    unfold CapsuleOS.ramBase CapsuleOS.ramSize at *
    exact ⟨(0x60000000 - b.firstFree) / 4096 - 1, by omega⟩
  obtain ⟨mm, live, run, ready⟩ :=
    AllocRun.reach fresh.ready aligned ge k (lt_min (by omega) (by omega))
  have ok := ready.alloc (by omega) (by omega) (by omega) .vmoData
  have run' := run.alloc .vmoData _ ok
  have looked := safe _ _ _ _ (.alloc .vmoData) init run' trivial
  have used := run'.usedBelow (init_booted init).usedBelow
  have next : (mm.claim .vmoData (b.firstFree + 4096 * k)).nextFreePage =
      CapsuleOS.ramBase + CapsuleOS.ramSize := last
  have stop : (mm.claim .vmoData (b.firstFree + 4096 * k)).endFreePage = b.endFree := ready.end_eq
  have going : ¬ (mm.claim .vmoData (b.firstFree + 4096 * k)).Exhausted := by
    unfold Mm.Exhausted
    rw [next, stop]
    unfold CapsuleOS.ramBase at *
    omega
  rw [FrameCall.lookups, lookups_cursor used going, next] at looked
  have tagged := looked _ (List.mem_singleton.mpr rfl)
  exact absurd (tagged.lt_ram (by decide)) (by omega)

theorem BootInfo.Leaves.covered (leaves : b.Leaves) (nonzero : b.firstFree ≠ 0)
    (safe : b.IndexesTags FrameCall.InTags) : b.TagsCover := by
  obtain ⟨mm₀, init, fresh⟩ := init_leaves leaves fun _ => 0
  have going : ¬ mm₀.Exhausted := by
    have := leaves.some_free
    unfold Mm.Exhausted
    rw [fresh.next_eq, fresh.end_eq]
    omega
  have looked := safe _ _ _ _ (.alloc .vmoData) init .start trivial
  rw [FrameCall.lookups, lookups_cursor (init_booted init).usedBelow going, fresh.next_eq] at looked
  have tagged := looked _ (List.mem_singleton.mpr rfl)
  have lt := tagged.lt_ram (leaves.some_free.trans leaves.endFree_lt)
  refine ⟨tagged.1, ?_⟩
  by_contra more
  exact leaves.overrun tagged.1 lt (by omega) safe

/-- Frames that have been handed out may be freed. -/
theorem AllocRun.live_inTags (run : AllocRun mm₀ mm live) (start : mm₀.UsedBelow) :
    ∀ pa ∈ live, (FrameCall.free pa).InTags := by
  induction run with
  | start => exact fun pa mem => by cases mem
  | @alloc mm mm' live tag pa before ok ih =>
    intro q mem
    have result := allocPage_result tag mm (before.usedBelow start).wf.end_lt
    rw [ok] at result
    cases result with
    | taken _ cand =>
      rcases List.mem_cons.mp mem with rfl | old
      · exact ⟨cand.ge_ram, cand.lt_ram⟩
      · exact ih q old
  | failed tag e _ ran ih => exact ih
  | free pa _ ok ih => exact fun q mem => ih q (List.mem_of_mem_filter mem)

/-- Calls look up nothing but frames with tags, on every run, exactly when no frame is left behind the
kernel image or all that are left lie in the 512 MiB at `0x40000000`. Frames that were handed out
may always be freed. -/
theorem tag_index_in_range (b : BootInfo) :
    (b.IndexesTags FrameCall.InTags ↔ (b.Leaves → b.firstFree ≠ 0 → b.TagsCover)) ∧
      ∀ mem mm₀ mm live, Mm.init b mem = some mm₀ → AllocRun mm₀ mm live →
        ∀ pa ∈ live, (FrameCall.free pa).InTags :=
  ⟨⟨fun safe leaves nonzero => leaves.covered nonzero safe, BootInfo.TagsCover.indexes⟩,
    fun _ _ _ _ init run => run.live_inTags (init_booted init).usedBelow⟩

/-- A machine with 1 GiB of RAM. -/
def BootInfo.gib : BootInfo := { BootInfo.virt with ramSize := 0x40000000 }

/-- The device tree can report 1 GiB, and then some run looks up a tag behind the end of the array. -/
theorem tag_index_out_of_range : ¬ ∀ (reg : Option (List UInt8)) (b : BootInfo),
    (b.ramBase, b.ramSize) = ramOfReg reg → b.ramBase ≤ b.kernelEnd →
    b.kernelEnd ≤ b.ramBase + b.ramSize → b.IndexesTags FrameCall.InTags := by
  intro safe
  have reported : (BootInfo.gib.ramBase, BootInfo.gib.ramSize) =
      ramOfReg (some (regOf 0x40000000 0x40000000)) := (ramOfReg_regOf (by decide) (by decide)).symm
  have leaves : BootInfo.gib.Leaves := ⟨by decide, by decide, by decide⟩
  exact leaves.overrun (by decide) (by decide) (by decide)
    (safe _ BootInfo.gib reported (by decide) (by decide))

end CapsuleOS
