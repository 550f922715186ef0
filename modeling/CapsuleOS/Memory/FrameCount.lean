import CapsuleOS.Memory.PhysRun

/-!
# The number of free pages

`init` counts the pages that are not reserved for the device tree. The cursor walks over those as well,
and it stops where the tag array ends. Each call afterwards changes the counter and the number of
frames that are left in the same way, so a difference at boot stays for ever.
-/
namespace CapsuleOS

open Lib

/-- How many more frames the cursor can hand out. -/
def Mm.servable (mm : Mm) : Nat :=
  if ramBase ≤ mm.nextFreePage then
    (min mm.endFreePage (ramBase + ramSize) - mm.nextFreePage + 4095) / 4096
  else 0

/-- The counter is the number of further allocations that succeed, and the next one does not take it
below zero. -/
def Mm.CountExact (mm : Mm) : Prop := ∀ tag,
  mm.CanAlloc tag mm.freePagesCount ∧ ¬ mm.CanAlloc tag (mm.freePagesCount + 1) ∧
    ∀ pa mm', allocPage tag mm = .ok pa mm' → 0 < mm.freePagesCount

namespace BootInfo

variable (b : BootInfo)

/-- The counter is exact after boot and after every run from there. -/
def CountsExactly : Prop := ∀ mem mm₀ mm live, Mm.init b mem = some mm₀ → AllocRun mm₀ mm live →
  mm.CountExact

/-- The number of pages from the first free one to the end of RAM. -/
def behind : Nat := (b.endFree - b.firstFree) / 4096

/-- How many of `n` pages from `page` on are kept back for the device tree. -/
def keptFrom (page n : Nat) : Nat := (List.range n).countP fun i => b.reserved (page + 4096 * i)

/-- How many pages behind the first free one are kept back while the frames are counted. -/
def keptBack : Nat := b.keptFrom b.firstFree b.behind

/-- How many pages from the first free one on have a tag, up to the first that has none. -/
def tagged : Nat :=
  if CapsuleOS.ramBase ≤ b.firstFree then
    (min b.endFree (CapsuleOS.ramBase + CapsuleOS.ramSize) - b.firstFree) / 4096
  else 0

/-- As many pages are kept back as cannot be handed out for want of a tag; and the image does not end
in the last page of the address space. -/
def Balanced : Prop := b.ramEnd + 4096 < 2 ^ 64 →
  b.kernelEndPage + 4096 < 2 ^ 64 ∧ b.keptBack = b.behind - b.tagged

end BootInfo

variable {b : BootInfo} {mm₀ mm mm' : Mm} {live : List Nat} {tag : PageTag} {pa : Nat}

/-! ## What is left -/

/-- Every frame from the cursor on is free, and no page table is tracked. -/
structure Mm.Idle (mm : Mm) : Prop extends mm.UsedBelow where
  live : mm.livePtPages = List.replicate maxLivePt 0

theorem not_live_of_idle (live : mm.livePtPages = List.replicate maxLivePt 0) (pa : Nat) :
    isLivePtPage mm pa = false := by
  by_contra found
  simp only [isLivePtPage, live, Bool.not_eq_false, Bool.and_eq_true, bne_iff_ne] at found
  exact found.1 (List.eq_of_mem_replicate (by simpa using found.2))

theorem unregisterPtPage_replicate {pa n : Nat} (h : pa ≠ 0) :
    unregisterPtPage pa (List.replicate n 0) = List.replicate n 0 := by
  induction n with
  | zero => rfl
  | succ n ih => rw [List.replicate_succ, unregisterPtPage, if_neg h.symm, ih]

theorem Mm.Booted.idle (h : mm.Booted) : mm.Idle := ⟨h.usedBelow, h.live⟩

namespace Mm.Idle

theorem claim (h : mm.Idle) (cand : mm.Candidate pa) (tag : PageTag) : (mm.claim tag pa).Idle :=
  ⟨h.toUsedBelow.claim cand tag, h.live⟩

theorem release (h : mm.Idle) (pa : Nat) : (mm.release pa).Idle := by
  refine ⟨h.toUsedBelow.release pa, ?_⟩
  simp only [Mm.release, h.live]
  split_ifs with table
  · exact unregisterPtPage_replicate table.2
  · rfl

/-- A call hands out the frame under the cursor, or stops there. -/
theorem allocPage_cases (h : mm.Idle) (tag : PageTag) :
    (mm.servable ≠ 0 ∧ mm.Candidate mm.nextFreePage ∧
      allocPage tag mm = .ok mm.nextFreePage (mm.claim tag mm.nextFreePage)) ∨
    (mm.servable = 0 ∧ (allocPage tag mm = .err .noMemory mm ∨ allocPage tag mm = .fault mm)) := by
  have word := h.wf.end_lt
  by_cases range : mm.nextFreePage = 0 ∨ mm.nextFreePage ≥ mm.endFreePage
  · refine Or.inr ⟨?_, Or.inl (by simp [allocPage, allocLoop, range])⟩
    unfold Mm.servable ramBase
    split_ifs <;> omega
  by_cases pfn : paToPfn mm.nextFreePage ≥ maxPages
  · refine Or.inr ⟨?_, Or.inr (by simp [allocPage, allocLoop, range, pfn])⟩
    unfold Mm.servable
    split_ifs with ge
    · rw [paToPfn_of_ge ge (by omega)] at pfn
      unfold maxPages ramBase ramSize at *
      omega
    · rfl
  · have free := h.cursor_free (by omega) (by omega)
    have idle := not_live_of_idle h.live mm.nextFreePage
    have ram := ram_of_paToPfn (by omega) (by omega : mm.nextFreePage < 2 ^ 64)
    refine Or.inl ⟨?_, ⟨le_rfl, by simp, by omega, ram.1, ram.2, free, idle⟩, ?_⟩
    · unfold Mm.servable
      rw [if_pos ram.1]
      omega
    · simp [allocPage, allocLoop, range, pfn, free, idle]

theorem servable_claim (cand : mm.Candidate mm.nextFreePage) (tag : PageTag) :
    (mm.claim tag mm.nextFreePage).servable = mm.servable - 1 := by
  have ge := cand.ge_ram
  have lt := cand.lt_ram
  have lt' := cand.lt_end
  have ge' : ramBase ≤ (mm.claim tag mm.nextFreePage).nextFreePage := by
    simp only [Mm.claim, Mm.setTag]
    omega
  rw [Mm.servable, Mm.servable, if_pos ge, if_pos ge']
  simp only [Mm.claim, Mm.setTag]
  omega

/-- The number of further allocations that succeed. -/
theorem canAlloc_iff (h : mm.Idle) (tag : PageTag) (n : Nat) :
    mm.CanAlloc tag n ↔ n ≤ mm.servable := by
  induction n generalizing mm with
  | zero => exact iff_of_true trivial (Nat.zero_le _)
  | succ n ih =>
    rcases h.allocPage_cases tag with ⟨some_left, cand, ok⟩ | ⟨none_left, err | fault⟩
    · have rest := ih (h.claim cand tag)
      rw [servable_claim cand] at rest
      constructor
      · rintro ⟨pa, mm', ok', more⟩
        rw [ok] at ok'
        cases ok'
        have := rest.mp more
        omega
      · intro le
        exact ⟨_, _, ok, rest.mpr (by omega)⟩
    · refine iff_of_false ?_ (by omega)
      rintro ⟨pa, mm', ok, _⟩
      rw [err] at ok
      cases ok
    · refine iff_of_false ?_ (by omega)
      rintro ⟨pa, mm', ok, _⟩
      rw [fault] at ok
      cases ok

theorem countExact_iff (h : mm.Idle) : mm.CountExact ↔ mm.freePagesCount = mm.servable := by
  constructor
  · intro exact_
    obtain ⟨can, cannot, _⟩ := exact_ .vmoData
    rw [h.canAlloc_iff] at can cannot
    omega
  · intro eq tag
    rw [h.canAlloc_iff, h.canAlloc_iff]
    refine ⟨eq.le, by omega, fun pa mm' ok => ?_⟩
    rcases h.allocPage_cases tag with ⟨some_left, _⟩ | ⟨_, err | fault⟩
    · omega
    · rw [err] at ok
      cases ok
    · rw [fault] at ok
      cases ok

end Mm.Idle

/-- A counter that is exact at boot stays so. -/
theorem AllocRun.countExact (run : AllocRun mm₀ mm live) (start : mm₀.Idle)
    (count : mm₀.freePagesCount = mm₀.servable) : mm.Idle ∧ mm.freePagesCount = mm.servable := by
  induction run with
  | start => exact ⟨start, count⟩
  | @alloc mm mm' live tag pa _ ok ih =>
    obtain ⟨idle, eq⟩ := ih
    rcases idle.allocPage_cases tag with ⟨some_left, cand, ok'⟩ | ⟨_, err | fault⟩
    · rw [ok] at ok'
      cases ok'
      refine ⟨idle.claim cand tag, ?_⟩
      rw [Mm.Idle.servable_claim cand, ← eq]
      have := cand.lt_end
      have bound : mm.servable < 2 ^ 64 := by
        unfold Mm.servable ramBase ramSize
        split_ifs <;> omega
      exact wsub_eq (by omega) (by omega)
    · rw [err] at ok
      cases ok
    · rw [fault] at ok
      cases ok
  | @failed mm mm' live tag e _ ran ih =>
    obtain ⟨idle, eq⟩ := ih
    rcases idle.allocPage_cases tag with ⟨_, _, ok⟩ | ⟨_, err | fault⟩
    · rw [ok] at ran
      cases ran
    · rw [err] at ran
      cases ran
      exact ⟨idle, eq⟩
    · rw [fault] at ran
      cases ran
  | free pa _ ok ih =>
    rw [freePage_ok ok]
    exact ⟨ih.1.release pa, ih.2⟩

/-! ## What boot counts -/

theorem BootInfo.keptFrom_succ (b : BootInfo) (page n : Nat) :
    b.keptFrom page (n + 1) = (if b.reserved page then 1 else 0) + b.keptFrom (page + 4096) n := by
  rw [keptFrom, keptFrom, List.range_succ_eq_map, List.countP_cons, List.countP_map, Nat.add_comm]
  congr 1
  refine List.countP_congr fun i _ => ?_
  have shift : page + 4096 * (i + 1) = page + 4096 + 4096 * i := by omega
  simp only [Function.comp_apply, Nat.succ_eq_add_one, shift]

theorem BootInfo.keptFrom_le (b : BootInfo) (page n : Nat) : b.keptFrom page n ≤ n := by
  have := List.countP_le_length (p := fun i => b.reserved (page + 4096 * i)) (l := List.range n)
  rwa [List.length_range] at this

/-- The walk counts the pages that are not kept back. -/
theorem initLoop_count (low : b.ramEnd + 4096 < 2 ^ 64) {fuel page count stop count' : Nat}
    {next next' : Option Nat} (aligned : 4096 ∣ page) (fits : page + 4096 < 2 ^ 64)
    (h : initLoop b fuel page next count = some (next', stop, count')) :
    count' + b.keptFrom page ((b.ramEnd - page) / 4096) = count + (b.ramEnd - page) / 4096 := by
  induction fuel generalizing page next count with
  | zero => cases h
  | succ fuel ih =>
    have step : wadd page 4096 = page + 4096 := wadd_eq fits
    rw [initLoop, step] at h
    by_cases more : page + 4096 ≤ b.ramEnd
    · rw [if_pos more] at h
      have rounds : (b.ramEnd - page) / 4096 = (b.ramEnd - (page + 4096)) / 4096 + 1 := by omega
      rw [rounds, b.keptFrom_succ]
      by_cases keep : b.reserved page
      · rw [if_pos keep] at h
        have rest := ih (by omega) (by omega) h
        rw [if_pos keep]
        omega
      · rw [if_neg keep] at h
        have rest := ih (by omega) (by omega) h
        rw [if_neg keep]
        omega
    · have none_left : (b.ramEnd - page) / 4096 = 0 := by omega
      rw [if_neg more] at h
      cases h
      rw [none_left]
      rfl

namespace BootInfo

theorem keptFrom_add (b : BootInfo) (page m n : Nat) :
    b.keptFrom page (m + n) = b.keptFrom page m + b.keptFrom (page + 4096 * m) n := by
  simp only [keptFrom]
  rw [List.range_add, List.countP_append, List.countP_map]
  congr 1
  refine List.countP_congr fun i _ => ?_
  have shift : page + 4096 * (m + i) = page + 4096 * m + 4096 * i := by omega
  rw [Function.comp_apply, shift]

theorem keptFrom_all {page n : Nat} (h : ∀ i < n, b.reserved (page + 4096 * i) = true) :
    b.keptFrom page n = n := by
  have all : (List.range n).countP (fun i => b.reserved (page + 4096 * i)) = (List.range n).length :=
    List.countP_eq_length.mpr fun i mem => h i (List.mem_range.mp mem)
  rwa [List.length_range] at all

/-- Up to the first free page everything behind the image is kept back. -/
theorem reserved_below {page : Nat} (ge : b.kernelEndPage ≤ page) (lt : page < b.firstFree) :
    b.reserved page = true := by
  rw [b.reserved_iff ge]
  unfold firstFree skipDtb at lt
  split_ifs at lt with dtb
  · exact ⟨dtb.1, dtb.2.1.trans ge, lt⟩
  · omega

/-- The pages that are counted lie behind the first free one. -/
theorem behind_kept (b : BootInfo) :
    (b.ramEnd - b.kernelEndPage) / 4096 - b.keptFrom b.kernelEndPage ((b.ramEnd - b.kernelEndPage) / 4096) =
      b.behind - b.keptBack := by
  have ge : b.kernelEndPage ≤ b.firstFree := b.le_skipDtb _
  have kernel := b.kernelEndPage_aligned
  have first := b.firstFree_aligned
  obtain ⟨m, at_first⟩ : ∃ m, b.firstFree = b.kernelEndPage + 4096 * m :=
    ⟨(b.firstFree - b.kernelEndPage) / 4096, by omega⟩
  have stop : b.endFree = b.kernelEndPage + 4096 * ((b.ramEnd - b.kernelEndPage) / 4096) := rfl
  generalize (b.ramEnd - b.kernelEndPage) / 4096 = n at stop
  by_cases inside : m ≤ n
  · obtain ⟨k, rfl⟩ := Nat.exists_eq_add_of_le inside
    have kept : b.keptFrom b.kernelEndPage m = m :=
      keptFrom_all fun i lt => reserved_below (by omega) (by omega)
    have rest : b.behind = k := by
      unfold behind
      omega
    rw [keptFrom_add, kept, keptBack, rest, at_first]
    omega
  · have kept : b.keptFrom b.kernelEndPage n = n :=
      keptFrom_all fun i lt => reserved_below (by omega) (by omega)
    have none_left : b.behind = 0 := by
      unfold behind
      omega
    rw [kept, none_left]
    omega

theorem tagged_le (b : BootInfo) : b.tagged ≤ b.behind := by
  unfold tagged behind
  split_ifs
  · exact Nat.div_le_div_right (by omega)
  · exact Nat.zero_le _

end BootInfo

/-- Counter and frames after boot. -/
theorem init_count (low : b.ramEnd + 4096 < 2 ^ 64) (fits : b.kernelEndPage + 4096 < 2 ^ 64)
    (mem : Mem) : ∃ mm, Mm.init b mem = some mm ∧ mm.freePagesCount = b.behind - b.keptBack ∧
      mm.servable = b.tagged := by
  obtain ⟨n, eq⟩ := initLoop_eq low (2 ^ 52 + 1) b.kernelEndPage none 0 b.kernelEndPage_aligned fits
    (fun _ => le_rfl) (by have := ramEnd_lt b; omega)
  have count := initLoop_count low b.kernelEndPage_aligned fits eq
  have kept := b.behind_kept
  refine ⟨_, by rw [Mm.init, eq]; rfl, by dsimp only; omega, ?_⟩
  have first := b.firstFree_aligned
  have last := b.limit_aligned
  have stop : b.walkEnd b.kernelEndPage = b.endFree := rfl
  have start : b.skipDtb b.kernelEndPage = b.firstFree := rfl
  simp only [Mm.servable, Option.none_or, stop, start, BootInfo.tagged]
  unfold BootInfo.limit at last
  by_cases some_free : b.firstFree < b.endFree
  · rw [if_pos some_free, Option.getD_some]
    split_ifs
    · omega
    · rfl
  · rw [if_neg some_free, Option.getD_none, if_neg (by decide)]
    split_ifs <;> omega

theorem Mm.servable_exhausted (h : mm.Exhausted) : mm.servable = 0 := by
  unfold Mm.Exhausted at h
  unfold Mm.servable ramBase
  split_ifs <;> omega

/-- An image that ends in the last page: that page is counted and never handed out. -/
theorem init_count_wraps (low : b.ramEnd + 4096 < 2 ^ 64) (wraps : ¬ b.kernelEndPage + 4096 < 2 ^ 64)
    (mem : Mem) : ∃ mm, Mm.init b mem = some mm ∧ mm.freePagesCount ≠ mm.servable := by
  obtain ⟨n, eq⟩ := initLoop_eq low (2 ^ 52) 0 (some b.kernelEndPage) 1 (dvd_zero _)
    (by norm_num) (fun h => by cases h) (by have := ramEnd_lt b; omega)
  have count := initLoop_count low (dvd_zero _) (by norm_num) eq
  have le := b.keptFrom_le 0 ((b.ramEnd - 0) / 4096)
  have init : ∃ mm, Mm.init b mem = some mm ∧ mm.freePagesCount = n := by
    rw [Mm.init, initLoop_wraps wraps, eq]
    exact ⟨_, rfl, rfl⟩
  obtain ⟨mm, init, at_n⟩ := init
  have none_left : ¬ b.Leaves := fun leaves => by
    have := leaves.room
    omega
  refine ⟨mm, init, ?_⟩
  rw [Mm.servable_exhausted (init_exhausted none_left init)]
  omega

theorem BootInfo.CountsExactly.balanced (exact_ : b.CountsExactly) : b.Balanced := by
  intro low
  by_cases fits : b.kernelEndPage + 4096 < 2 ^ 64
  · obtain ⟨mm, init, count, left⟩ := init_count low fits fun _ => 0
    have eq := (init_booted init).idle.countExact_iff.mp (exact_ _ _ _ _ init .start)
    have le := b.tagged_le
    have kept : b.keptBack ≤ b.behind := b.keptFrom_le _ _
    exact ⟨fits, by omega⟩
  · obtain ⟨mm, init, ne⟩ := init_count_wraps low fits fun _ => 0
    exact absurd ((init_booted init).idle.countExact_iff.mp (exact_ _ _ _ _ init .start)) ne

theorem BootInfo.Balanced.countsExactly (balanced : b.Balanced) : b.CountsExactly := by
  intro mem mm₀ mm live init run
  have low : b.ramEnd + 4096 < 2 ^ 64 := by
    by_contra high
    have endless := initLoop_endless (b := b) (by omega) (2 ^ 52 + 1) b.kernelEndPage none 0
      b.kernelEndPage_aligned (kernelEndPage_lt b)
    rw [Mm.init, endless] at init
    cases init
  obtain ⟨fits, kept⟩ := balanced low
  obtain ⟨mm₁, init', count, left⟩ := init_count low fits mem
  rw [init] at init'
  cases init'
  have le := b.tagged_le
  obtain ⟨idle, eq⟩ := run.countExact (init_booted init).idle (by omega)
  exact idle.countExact_iff.mpr eq

/-- The counter is the number of frames that are left, after every run, exactly when at boot as many
pages behind the first free one are kept back for the device tree as cannot be handed out because they
have no tag. -/
theorem free_pages_count_exact (b : BootInfo) : b.CountsExactly ↔ b.Balanced :=
  ⟨BootInfo.CountsExactly.balanced, BootInfo.Balanced.countsExactly⟩

/-- With the device tree in the middle of RAM, its pages are handed out and were never counted. -/
theorem device_tree_not_counted : ¬ ∀ b : BootInfo, b.CountsExactly := by
  intro exact_
  have kept := ((exact_ BootInfo.virt).balanced (by decide)).2
  have in_tags : BootInfo.virt.behind - BootInfo.virt.tagged = 0 := by decide
  have page : BootInfo.virt.reserved (BootInfo.virt.firstFree + 4096 * 0x7E00) = true := by decide
  have some_kept : 0 < BootInfo.virt.keptBack :=
    List.countP_pos_iff.mpr ⟨0x7E00, List.mem_range.mpr (by decide), page⟩
  omega

end CapsuleOS
