import CapsuleOS.Memory.PhysInit

/-!
# Runs of the frame allocator

Any sequence of allocations and releases after boot. The cursor only moves up, so no frame is handed
out twice; but it passes over everything between its start and the end of RAM, whatever lies there.
-/
namespace CapsuleOS

open Lib

/-- The ranges of `n` bytes at `a` and of `m` bytes at `b` have no byte in common. -/
def Apart (a n b m : Nat) : Prop := n = 0 ∨ m = 0 ∨ a + n ≤ b ∨ b + m ≤ a

instance (a n b m : Nat) : Decidable (Apart a n b m) := inferInstanceAs (Decidable (_ ∨ _))

/-- The frame is RAM that nobody uses at boot. -/
structure BootInfo.FreeRam (b : BootInfo) (pa : Nat) : Prop where
  in_ram : b.ramBase ≤ pa ∧ pa + pageSize ≤ b.ramBase + b.ramSize
  kernel : Apart pa pageSize b.kernelStart (b.kernelEnd - b.kernelStart)
  dtb : b.dtbAddr ≠ 0 → Apart pa pageSize b.dtbAddr b.dtbSize
  bootfs : Apart pa pageSize b.bootfsPa b.bootfsSize

/-- A sequence of calls; `live` lists the frames that have been handed out and not given back. -/
inductive AllocRun (mm₀ : Mm) : Mm → List Nat → Prop where
  | start : AllocRun mm₀ mm₀ []
  | alloc {mm mm' : Mm} {live : List Nat} (tag : PageTag) (pa : Nat) (run : AllocRun mm₀ mm live)
      (ok : allocPage tag mm = .ok pa mm') : AllocRun mm₀ mm' (pa :: live)
  | failed {mm mm' : Mm} {live : List Nat} (tag : PageTag) (e : Status) (run : AllocRun mm₀ mm live)
      (ran : allocPage tag mm = .err e mm') : AllocRun mm₀ mm' live
  | free {mm mm' : Mm} {live : List Nat} (pa : Nat) (run : AllocRun mm₀ mm live)
      (ok : freePage pa mm = .ok () mm') : AllocRun mm₀ mm' (live.filter (· ≠ pa))

/-- Every frame that any run after boot hands out is free RAM and is not handed out already. -/
def BootInfo.AllocatesFreeRam (b : BootInfo) : Prop :=
  ∀ mem mm₀ mm live, Mm.init b mem = some mm₀ → AllocRun mm₀ mm live →
    ∀ tag pa mm', allocPage tag mm = .ok pa mm' → b.FreeRam pa ∧ pa ∉ live

/-! ## What a run keeps -/

variable {b : BootInfo} {mm₀ mm mm' : Mm} {live : List Nat}

theorem freePage_ok {pa : Nat} (ok : freePage pa mm = .ok () mm') : mm' = mm.release pa := by
  unfold freePage at ok
  split_ifs at ok
  cases ok
  rfl

theorem allocPage_exhausted (h : mm.Exhausted) (tag : PageTag) :
    allocPage tag mm = .err .noMemory mm := by
  have stop : mm.nextFreePage = 0 ∨ mm.nextFreePage ≥ mm.endFreePage := h
  simp [allocPage, allocLoop, stop]

theorem AllocRun.exhausted (run : AllocRun mm₀ mm live) (h : mm₀.Exhausted) : mm.Exhausted := by
  induction run with
  | start => exact h
  | alloc tag pa _ ok ih =>
    rw [allocPage_exhausted ih] at ok
    cases ok
  | failed tag e _ ran ih =>
    rw [allocPage_exhausted ih] at ran
    cases ran
    exact ih
  | free pa _ ok ih =>
    rw [freePage_ok ok]
    exact ih

/-- A cursor outside the tag array stops every allocation, and stays where it is. -/
theorem allocPage_outside (out : maxPages ≤ paToPfn mm.nextFreePage) (tag : PageTag) :
    allocPage tag mm = .err .noMemory mm ∨ allocPage tag mm = .fault mm := by
  by_cases stop : mm.nextFreePage = 0 ∨ mm.nextFreePage ≥ mm.endFreePage
  · left
    simp [allocPage, allocLoop, stop]
  · right
    simp [allocPage, allocLoop, stop, out]

theorem AllocRun.outside (run : AllocRun mm₀ mm live)
    (out : maxPages ≤ paToPfn mm₀.nextFreePage) : maxPages ≤ paToPfn mm.nextFreePage := by
  induction run with
  | start => exact out
  | alloc tag pa _ ok ih =>
    rcases allocPage_outside ih tag with eq | eq
    · rw [eq] at ok
      cases ok
    · rw [eq] at ok
      cases ok
  | failed tag e _ ran ih =>
    rcases allocPage_outside ih tag with eq | eq
    · rw [eq] at ran
      cases ran
      exact ih
    · rw [eq] at ran
      cases ran
  | free pa _ ok ih =>
    rw [freePage_ok ok]
    exact ih

/-- The cursor stays on the grid of its start, and every frame handed out lies below it. -/
structure Mm.Walked (mm : Mm) (first stop : Nat) (live : List Nat) : Prop where
  ge_first : first ≤ mm.nextFreePage
  grid : 4096 ∣ mm.nextFreePage - first
  end_eq : mm.endFreePage = stop
  below : ∀ q ∈ live, q < mm.nextFreePage

theorem AllocRun.walked {first stop : Nat} (run : AllocRun mm₀ mm live)
    (start : mm₀.Walked first stop []) (lt : stop < 2 ^ 64) : mm.Walked first stop live := by
  induction run with
  | start => exact start
  | @alloc mm mm' live tag pa _ ok ih =>
    have result := allocPage_result tag mm (ih.end_eq ▸ lt)
    rw [ok] at result
    cases result with
    | taken _ cand =>
      have ge := ih.ge_first
      have ge' := cand.ge_cursor
      have grid := ih.grid
      have grid' := cand.grid
      refine ⟨?_, ?_, ih.end_eq, ?_⟩
      · simp only [Mm.claim]
        omega
      · simp only [Mm.claim]
        omega
      · intro q mem
        simp only [Mm.claim]
        rcases List.mem_cons.mp mem with rfl | old
        · omega
        · have := ih.below q old
          omega
  | @failed mm mm' live tag e _ ran ih =>
    have result := allocPage_result tag mm (ih.end_eq ▸ lt)
    rw [ran] at result
    cases result with
    | exhausted n ge grid =>
      have ge' := ih.ge_first
      have grid' := ih.grid
      refine ⟨ge'.trans ge, ?_, ih.end_eq, fun q mem => (ih.below q mem).trans_le ge⟩
      simp only [Mm.skipTo]
      omega
  | free pa _ ok ih =>
    rw [freePage_ok ok]
    exact ⟨ih.ge_first, ih.grid, ih.end_eq, fun q mem => ih.below q (List.mem_of_mem_filter mem)⟩

/-- Every frame in use lies below the cursor. -/
structure Mm.UsedBelow (mm : Mm) : Prop where
  wf : mm.WF
  below : ∀ pfn, mm.pageTags pfn ≠ .free → ramBase + 4096 * pfn < mm.nextFreePage

theorem Mm.Booted.usedBelow (h : mm.Booted) : mm.UsedBelow where
  wf := h.wf
  below pfn used := absurd (h.tags pfn) used

/-- The start of a frame that is handed out, from its number. -/
theorem Mm.Candidate.pfn_start {pa : Nat} (cand : mm.Candidate pa) (wf : mm.WF) :
    ramBase + 4096 * paToPfn pa = pa := by
  have ge := cand.ge_ram
  have aligned := cand.aligned wf
  rw [paToPfn_of_ge ge cand.lt_word]
  unfold pageSize at aligned
  unfold ramBase at *
  omega

namespace Mm.UsedBelow

theorem skipTo (h : mm.UsedBelow) {n : Nat} (ge : mm.nextFreePage ≤ n)
    (grid : 4096 ∣ n - mm.nextFreePage) : (mm.skipTo n).UsedBelow where
  wf := h.wf.skipTo ge grid
  below pfn used := (h.below pfn used).trans_le ge

theorem claim (h : mm.UsedBelow) {pa : Nat} (cand : mm.Candidate pa) (tag : PageTag) :
    (mm.claim tag pa).UsedBelow where
  wf := h.wf.claim cand
  below pfn used := by
    have ge := cand.ge_cursor
    have start := cand.pfn_start h.wf
    simp only [Mm.claim, Mm.setTag] at used ⊢
    split_ifs at used with same
    · omega
    · have := h.below pfn used
      omega

theorem release (h : mm.UsedBelow) (pa : Nat) : (mm.release pa).UsedBelow where
  wf := ⟨h.wf.end_lt, h.wf.aligned⟩
  below pfn used := by
    refine h.below pfn ?_
    simp only [Mm.release, Mm.setTag] at used
    split_ifs at used
    · exact absurd rfl used
    · exact used

end Mm.UsedBelow

/-- The frame under the cursor is free, so that the cursor skips nothing. -/
theorem Mm.UsedBelow.cursor_free (h : mm.UsedBelow) (lt : mm.nextFreePage < 2 ^ 64)
    (pfn : paToPfn mm.nextFreePage < maxPages) : mm.tag mm.nextFreePage = .free := by
  by_contra used
  have ram := ram_of_paToPfn pfn lt
  have below := h.below _ used
  have aligned := h.wf.aligned
  rw [paToPfn_of_ge ram.1 lt] at below
  unfold ramBase at *
  omega

theorem AllocRun.usedBelow (run : AllocRun mm₀ mm live) (start : mm₀.UsedBelow) : mm.UsedBelow := by
  induction run with
  | start => exact start
  | @alloc mm mm' live tag pa _ ok ih =>
    have result := allocPage_result tag mm ih.wf.end_lt
    rw [ok] at result
    cases result with
    | taken _ cand => exact ih.claim cand tag
  | @failed mm mm' live tag e _ ran ih =>
    have result := allocPage_result tag mm ih.wf.end_lt
    rw [ran] at result
    cases result with
    | exhausted n ge grid => exact ih.skipTo ge grid
  | free pa _ ok ih =>
    rw [freePage_ok ok]
    exact ih.release pa

/-! ## The frames a run can reach -/

/-- The machine right before the frame `pa` is handed out by a run of allocations only. -/
structure Mm.Ready (mm : Mm) (pa stop : Nat) : Prop where
  next_eq : mm.nextFreePage = pa
  end_eq : mm.endFreePage = stop
  free : ∀ q, pa ≤ q → q < ramBase + ramSize → mm.tag q = .free
  live : mm.livePtPages = List.replicate maxLivePt 0

theorem Mm.Ready.alloc {pa stop : Nat} (h : mm.Ready pa stop) (lt : pa < stop) (ge : ramBase ≤ pa)
    (lt_ram : pa < ramBase + ramSize) (tag : PageTag) :
    allocPage tag mm = .ok pa (mm.claim tag pa) := by
  have pfn : paToPfn pa = (pa - ramBase) / 4096 := paToPfn_of_ge ge (by
    simp only [ramBase, ramSize] at lt_ram
    omega)
  have in_tags : ¬ paToPfn pa ≥ maxPages := by
    rw [pfn]
    simp only [maxPages, ramSize, ramBase] at *
    omega
  have pos : pa ≠ 0 := by
    simp only [ramBase] at ge
    omega
  have range : ¬ (pa = 0 ∨ pa ≥ stop) := by omega
  have idle : isLivePtPage mm pa = false := by
    have absent : pa ∉ List.replicate maxLivePt 0 := fun mem => pos (List.eq_of_mem_replicate mem)
    simp [isLivePtPage, h.live, absent]
  simp [allocPage, allocLoop, h.next_eq, h.end_eq, range, in_tags, h.free pa le_rfl lt_ram, idle]

theorem Mm.Ready.claim {pa stop : Nat} (h : mm.Ready pa stop) (ge : ramBase ≤ pa)
    (aligned : 4096 ∣ pa) (tag : PageTag) : (mm.claim tag pa).Ready (pa + 4096) stop where
  next_eq := rfl
  end_eq := h.end_eq
  free q ge' lt := by
    have word : q < 2 ^ 64 := by
      simp only [ramBase, ramSize] at lt
      omega
    have ne : paToPfn q ≠ paToPfn pa := by
      rw [paToPfn_of_ge (by omega) word, paToPfn_of_ge ge (by omega)]
      simp only [ramBase] at *
      omega
    have old := h.free q (by omega) lt
    simp only [Mm.tag, Mm.claim, Mm.setTag, if_neg ne] at old ⊢
    exact old
  live := h.live

/-- Every frame from the cursor on, up to the end of RAM and of the tag array, is handed out by some
run. -/
theorem AllocRun.reach {first stop : Nat} (start : mm₀.Ready first stop) (aligned : 4096 ∣ first)
    (ge : ramBase ≤ first) (k : Nat) (inside : first + 4096 * k < min stop (ramBase + ramSize)) :
    ∃ mm live, AllocRun mm₀ mm live ∧ mm.Ready (first + 4096 * k) stop := by
  induction k with
  | zero => exact ⟨mm₀, [], .start, start⟩
  | succ k ih =>
    obtain ⟨mm, live, run, ready⟩ := ih (by omega)
    have ok := ready.alloc (by omega) (by omega) (by omega) .vmoData
    refine ⟨_, _, run.alloc .vmoData _ ok, ?_⟩
    have next := ready.claim (by omega) (by omega) .vmoData
    have eq : first + 4096 * (k + 1) = first + 4096 * k + 4096 := by omega
    rw [eq]
    exact next

/-! ## When the claim of the allocator holds -/

namespace BootInfo

/-- Some frame is handed out: pages are left behind the image, and the first of them has a tag. -/
structure Serves (b : BootInfo) : Prop extends b.Leaves where
  ge_tags : CapsuleOS.ramBase ≤ b.firstFree
  lt_tags : b.firstFree < CapsuleOS.ramBase + CapsuleOS.ramSize

/-- Where the cursor can get to. -/
def limit (b : BootInfo) : Nat := min b.endFree (CapsuleOS.ramBase + CapsuleOS.ramSize)

/-- Behind the first free page there is nothing but unused RAM. -/
structure Clear (b : BootInfo) : Prop where
  ram : b.ramBase ≤ b.firstFree
  dtb : b.dtbAddr ≠ 0 → Apart b.firstFree (b.limit - b.firstFree) b.dtbAddr b.dtbSize
  bootfs : Apart b.firstFree (b.limit - b.firstFree) b.bootfsPa b.bootfsSize

theorem firstFree_aligned (b : BootInfo) : 4096 ∣ b.firstFree :=
  b.skipDtb_aligned b.kernelEndPage_aligned

theorem limit_aligned (b : BootInfo) : 4096 ∣ b.limit := by
  have kernel := b.kernelEndPage_aligned
  have walk : 4096 ∣ b.endFree := by
    unfold endFree walkEnd
    omega
  unfold limit CapsuleOS.ramBase CapsuleOS.ramSize
  omega

/-- A range that meets the frames from the first free page on meets one of them. -/
theorem exists_frame {a n : Nat}
    (meets : ¬ Apart b.firstFree (b.limit - b.firstFree) a n) :
    ∃ k, b.firstFree + 4096 * k < b.limit ∧ ¬ Apart (b.firstFree + 4096 * k) pageSize a n := by
  have first := b.firstFree_aligned
  have last := b.limit_aligned
  unfold Apart at meets
  refine ⟨(max b.firstFree a - b.firstFree) / 4096, by omega, ?_⟩
  unfold Apart pageSize
  omega

theorem Clear.frame (h : b.Clear) (serves : b.Serves) {pa : Nat} (ge : b.firstFree ≤ pa)
    (grid : 4096 ∣ pa - b.firstFree) (lt : pa < b.limit) : b.FreeRam pa := by
  have first := b.firstFree_aligned
  have last := b.limit_aligned
  have room := serves.room
  have low := serves.low
  have inner : ∀ {a n}, Apart b.firstFree (b.limit - b.firstFree) a n → Apart pa pageSize a n := by
    intro a n apart
    unfold Apart pageSize at *
    omega
  have stop : b.limit ≤ b.ramEnd := by
    unfold limit endFree walkEnd
    omega
  have sum : b.ramEnd ≤ b.ramBase + b.ramSize := Nat.mod_le _ _
  have kernel : b.kernelEnd ≤ b.firstFree := by
    have tags := serves.ge_tags
    have skip := b.le_skipDtb b.kernelEndPage
    have lt := b.kernelEnd_lt
    by_cases wraps : b.kernelEnd + 4095 < 2 ^ 64
    · have page : b.kernelEndPage = (b.kernelEnd + 4095) / 4096 * 4096 := by
        rw [kernelEndPage, pageUp, wadd_eq wraps]
      unfold firstFree
      omega
    · -- an image that ends in the last page of the address space puts the cursor on page 0
      have page : b.kernelEndPage = 0 := by
        unfold kernelEndPage pageUp wadd
        omega
      have zero : b.firstFree = 0 := by
        rw [firstFree, skipDtb, if_neg, page]
        rw [page]
        omega
      rw [zero] at tags
      exact absurd tags (by decide)
  refine ⟨⟨h.ram.trans ge, ?_⟩, Or.inr ?_, fun some_dtb => inner (h.dtb some_dtb), inner h.bootfs⟩
  · unfold pageSize
    omega
  · omega

end BootInfo

theorem Mm.Fresh.ready {next stop : Nat} (h : mm.Fresh next stop) : mm.Ready next stop where
  next_eq := h.next_eq
  end_eq := h.end_eq
  free _ _ _ := h.tags _
  live := h.live

theorem Mm.Fresh.walked {next stop : Nat} (h : mm.Fresh next stop) : mm.Walked next stop [] where
  ge_first := h.next_eq.ge
  grid := by simp [h.next_eq]
  end_eq := h.end_eq
  below _ mem := by cases mem

theorem BootInfo.Leaves.endFree_lt (h : b.Leaves) : b.endFree < 2 ^ 64 := by
  have low := h.low
  have room := h.room
  unfold BootInfo.endFree BootInfo.walkEnd
  omega

/-- Some run hands out each frame from the first free page to the limit. -/
theorem BootInfo.Serves.reach (serves : b.Serves) (safe : b.AllocatesFreeRam) {k : Nat}
    (inside : b.firstFree + 4096 * k < b.limit) : b.FreeRam (b.firstFree + 4096 * k) := by
  obtain ⟨mm₀, init, fresh⟩ := init_leaves serves.toLeaves fun _ => 0
  obtain ⟨mm, live, run, ready⟩ :=
    AllocRun.reach fresh.ready b.firstFree_aligned serves.ge_tags k inside
  have lt : b.firstFree + 4096 * k < b.endFree := inside.trans_le (min_le_left _ _)
  have lt_ram := inside.trans_le (min_le_right _ _)
  have ge := serves.ge_tags
  exact (safe _ _ _ _ init run _ _ _ (ready.alloc lt (by omega) lt_ram .vmoData)).1

theorem BootInfo.Serves.clear (serves : b.Serves) (safe : b.AllocatesFreeRam) : b.Clear := by
  have first : b.firstFree < b.limit := lt_min serves.some_free serves.lt_tags
  refine ⟨(serves.reach safe (k := 0) first).in_ram.1, fun some_dtb => ?_, ?_⟩
  · by_contra meets
    obtain ⟨k, inside, hit⟩ := b.exists_frame meets
    exact hit ((serves.reach safe inside).dtb some_dtb)
  · by_contra meets
    obtain ⟨k, inside, hit⟩ := b.exists_frame meets
    exact hit (serves.reach safe inside).bootfs

/-- A run that hands out a frame starts with its cursor on a frame that has a tag. -/
theorem AllocRun.serves (leaves : b.Leaves) (fresh : mm₀.Fresh b.firstFree b.endFree)
    (run : AllocRun mm₀ mm live) {tag : PageTag} {pa : Nat} (ok : allocPage tag mm = .ok pa mm') :
    b.Serves := by
  have inside : paToPfn b.firstFree < maxPages := by
    by_contra out
    have out' : maxPages ≤ paToPfn mm₀.nextFreePage := by
      rw [fresh.next_eq]
      omega
    rcases allocPage_outside (run.outside out') tag with eq | eq
    · rw [eq] at ok
      cases ok
    · rw [eq] at ok
      cases ok
  have tags := ram_of_paToPfn inside (leaves.some_free.trans leaves.endFree_lt)
  exact ⟨leaves, tags.1, tags.2⟩

/-- Every frame that is ever handed out is unused RAM, and not handed out already, exactly when
either no frame is handed out at all, or RAM begins at or below the first free page and neither the
device tree nor the boot image lies between that page and the end of what the cursor can reach. -/
theorem allocator_hands_out_free_ram (b : BootInfo) :
    b.AllocatesFreeRam ↔ (b.Serves → b.Clear) := by
  constructor
  · intro safe serves
    exact serves.clear safe
  · intro clear mem mm₀ mm live init run tag pa mm' ok
    by_cases leaves : b.Leaves
    · obtain ⟨mm₁, init', fresh⟩ := init_leaves leaves mem
      rw [init] at init'
      cases init'
      have serves := run.serves leaves fresh ok
      have walked := run.walked fresh.walked leaves.endFree_lt
      have result := allocPage_result tag mm (walked.end_eq ▸ leaves.endFree_lt)
      rw [ok] at result
      cases result with
      | taken _ cand =>
        have ge := walked.ge_first
        have ge' := cand.ge_cursor
        have grid := walked.grid
        have grid' := cand.grid
        have lt : pa < b.endFree := walked.end_eq ▸ cand.lt_end
        refine ⟨(clear serves).frame serves (by omega) (by omega) (lt_min lt cand.lt_ram), ?_⟩
        intro mem
        have below := walked.below pa mem
        omega
    · rw [allocPage_exhausted (run.exhausted (init_exhausted leaves init))] at ok
      cases ok

/-- A machine with 512 MiB of RAM, a kernel image of 1.5 MiB in its first two MiB, and the device
tree and a boot image of one MiB further up. -/
def BootInfo.virt : BootInfo where
  ramBase := 0x40000000
  ramSize := 0x20000000
  kernelStart := 0x40080000
  kernelEnd := 0x40200000
  dtbAddr := 0x48000000
  dtbSize := 0x10000
  bootfsPa := 0x46000000
  bootfsSize := 0x100000
  ramBase_lt := by decide
  kernelEnd_lt := by decide
  dtbAddr_lt := by decide
  dtbSize_lt := by decide

theorem BootInfo.virt_serves : BootInfo.virt.Serves :=
  ⟨⟨by decide, by decide, by decide⟩, by decide, by decide⟩

/-- With the boot image in the middle of RAM, some run hands out a frame of it. -/
theorem boot_image_handed_out : ¬ BootInfo.virt.AllocatesFreeRam := by
  intro safe
  have clear := BootInfo.virt_serves.clear safe
  exact absurd clear.bootfs (by decide)

end CapsuleOS
