import CapsuleOS.Memory.Phys

/-!
# Boot of the frame allocator

`init` walks over the frames behind the kernel image, counts those that are not reserved and leaves
the cursor at the first of them. `alloc_page` then walks on from there by itself and does not look
at the reservations again.
-/
namespace CapsuleOS

open Lib

/-- What the boot loader and the device tree tell the kernel, and where its image lies. -/
structure BootInfo where
  ramBase : Nat
  ramSize : Nat
  kernelStart : Nat
  kernelEnd : Nat
  dtbAddr : Nat
  dtbSize : Nat
  bootfsPa : Nat
  bootfsSize : Nat
  ramBase_lt : ramBase < 2 ^ 64
  kernelEnd_lt : kernelEnd < 2 ^ 64
  dtbAddr_lt : dtbAddr < 2 ^ 64
  dtbSize_lt : dtbSize < 2 ^ 32

/-- `(a + 4095) & !4095`. -/
def pageUp (a : Nat) : Nat := wadd a 4095 / 4096 * 4096

def isPageReserved (pageAddr kernelEndPage dtbStartPage dtbEndPage : Nat) : Bool :=
  pageAddr < kernelEndPage ||
    (dtbStartPage != 0 && dtbStartPage ≤ pageAddr && pageAddr < dtbEndPage)

namespace BootInfo

variable (b : BootInfo)

def kernelEndPage : Nat := pageUp b.kernelEnd

def ramEnd : Nat := wadd b.ramBase b.ramSize

def dtbStartPage : Nat := if b.dtbAddr = 0 then 0 else b.dtbAddr / 4096 * 4096

def dtbEndPage : Nat := if b.dtbAddr = 0 then 0 else pageUp (wadd b.dtbAddr b.dtbSize)

/-- The page is kept back while the frames are counted. -/
def reserved (page : Nat) : Bool := isPageReserved page b.kernelEndPage b.dtbStartPage b.dtbEndPage

end BootInfo

/-- The counting loop. The result is the first free page, the end and the number of free pages;
`none` stands for a walk that wraps around the address space and does not end. -/
def initLoop (b : BootInfo) : Nat → Nat → Option Nat → Nat → Option (Option Nat × Nat × Nat)
  | 0, _, _, _ => none
  | fuel + 1, page, next, count =>
    if wadd page 4096 ≤ b.ramEnd then
      if b.reserved page then initLoop b fuel (wadd page 4096) next count
      else initLoop b fuel (wadd page 4096) (some (next.getD page)) (count + 1)
    else some (next, page, count)

/-- There are `2 ^ 52` pages, so a walk that ends does so within that many rounds. -/
def Mm.init (b : BootInfo) (mem : Mem) : Option Mm :=
  (initLoop b (2 ^ 52 + 1) b.kernelEndPage none 0).map fun r =>
    { mem
      nextFreePage := r.1.getD 0
      endFreePage := r.2.1
      freePagesCount := r.2.2
      pageTags := fun _ => .free
      livePtPages := List.replicate maxLivePt 0
      pageCache := ⟨Slots.empty, 0⟩
      vmoIdCounter := 1
      freeLog := [] }

/-! ## Where the cursor starts -/

namespace BootInfo

variable (b : BootInfo)

/-- The first page at or above `page` that is not kept back for the device tree. -/
def skipDtb (page : Nat) : Nat :=
  if b.dtbStartPage ≠ 0 ∧ b.dtbStartPage ≤ page ∧ page < b.dtbEndPage then b.dtbEndPage else page

/-- The page at which the cursor starts, if any page is free. -/
def firstFree : Nat := b.skipDtb b.kernelEndPage

/-- The end of the walk from a page. -/
def walkEnd (page : Nat) : Nat := page + 4096 * ((b.ramEnd - page) / 4096)

def endFree : Nat := b.walkEnd b.kernelEndPage

theorem pageUp_aligned (a : Nat) : 4096 ∣ pageUp a := Dvd.intro_left _ rfl

theorem kernelEndPage_aligned : 4096 ∣ b.kernelEndPage := pageUp_aligned _

theorem dtbEndPage_aligned : 4096 ∣ b.dtbEndPage := by
  unfold dtbEndPage
  split_ifs
  · exact dvd_zero _
  · exact pageUp_aligned _

theorem skipDtb_aligned {page : Nat} (h : 4096 ∣ page) : 4096 ∣ b.skipDtb page := by
  unfold skipDtb
  split_ifs
  · exact b.dtbEndPage_aligned
  · exact h

theorem le_skipDtb (page : Nat) : page ≤ b.skipDtb page := by
  unfold skipDtb
  split_ifs with h
  · omega
  · exact le_rfl

theorem reserved_iff {page : Nat} (ge : b.kernelEndPage ≤ page) :
    b.reserved page = true ↔ b.dtbStartPage ≠ 0 ∧ b.dtbStartPage ≤ page ∧ page < b.dtbEndPage := by
  have past : ¬ page < b.kernelEndPage := by omega
  simp [reserved, isPageReserved, past, and_assoc]

end BootInfo

variable {b : BootInfo}

/-- The walk without wrap-around: it ends at the last whole page, and the cursor is set to the first
page that is not reserved. -/
theorem initLoop_eq (low : b.ramEnd + 4096 < 2 ^ 64) (fuel page : Nat) (next : Option Nat)
    (count : Nat) (aligned : 4096 ∣ page) (fits : page + 4096 < 2 ^ 64)
    (above : next = none → b.kernelEndPage ≤ page)
    (enough : (b.ramEnd - page) / 4096 + 1 ≤ fuel) :
    ∃ n, initLoop b fuel page next count =
      some (next.or (if b.skipDtb page < b.walkEnd page then some (b.skipDtb page) else none),
        b.walkEnd page, n) := by
  induction fuel generalizing page next count with
  | zero => omega
  | succ fuel ih =>
    have step : wadd page 4096 = page + 4096 := wadd_eq fits
    rw [initLoop, step]
    by_cases more : page + 4096 ≤ b.ramEnd
    · rw [if_pos more]
      have stop : b.walkEnd (page + 4096) = b.walkEnd page := by
        unfold BootInfo.walkEnd
        omega
      have inside : page < b.walkEnd page := by
        unfold BootInfo.walkEnd
        omega
      by_cases keep : b.reserved page
      · rw [if_pos keep]
        obtain ⟨n, eq⟩ := ih (page + 4096) next count (by omega) (by omega) (fun h => by have := above h; omega)
          (by omega)
        refine ⟨n, ?_⟩
        rw [eq, stop]
        cases next with
        | some p => rfl
        | none =>
          -- inside the device tree the next free page stays the end of it
          have cond := (b.reserved_iff (above rfl)).mp keep
          have dtb := b.dtbEndPage_aligned
          have same : b.skipDtb (page + 4096) = b.skipDtb page := by
            simp only [BootInfo.skipDtb, if_pos cond]
            split_ifs with h
            · rfl
            · omega
          rw [same]
      · rw [if_neg keep]
        obtain ⟨n, eq⟩ := ih (page + 4096) (some (next.getD page)) (count + 1) (by omega)
          (by omega) (fun h => by cases h) (by omega)
        refine ⟨n, ?_⟩
        rw [eq, stop]
        cases next with
        | some p => rfl
        | none =>
          have free : b.skipDtb page = page := if_neg fun h => keep ((b.reserved_iff (above rfl)).mpr h)
          simp [free, inside]
    · rw [if_neg more]
      have stop : b.walkEnd page = page := by
        unfold BootInfo.walkEnd
        omega
      have past : ¬ b.skipDtb page < page := by have := b.le_skipDtb page; omega
      exact ⟨count, by simp [stop, past]⟩

/-- RAM that reaches the last page of the address space: the walk never ends. -/
theorem initLoop_endless (high : 2 ^ 64 ≤ b.ramEnd + 4096) (fuel page : Nat) (next : Option Nat)
    (count : Nat) (aligned : 4096 ∣ page) (lt : page < 2 ^ 64) :
    initLoop b fuel page next count = none := by
  induction fuel generalizing page next count with
  | zero => rfl
  | succ fuel ih =>
    have more : wadd page 4096 ≤ b.ramEnd := by
      unfold wadd
      omega
    have lt' : wadd page 4096 < 2 ^ 64 := Nat.mod_lt _ (by decide)
    have aligned' : 4096 ∣ wadd page 4096 := by
      unfold wadd
      omega
    rw [initLoop, if_pos more]
    split_ifs
    · exact ih _ _ _ aligned' lt'
    · exact ih _ _ _ aligned' lt'

/-- The state right after boot, up to the number of free pages. -/
structure Mm.Fresh (mm : Mm) (next stop : Nat) : Prop where
  next_eq : mm.nextFreePage = next
  end_eq : mm.endFreePage = stop
  tags : ∀ pfn, mm.pageTags pfn = .free
  live : mm.livePtPages = List.replicate maxLivePt 0

/-- No frame will ever be handed out. -/
def Mm.Exhausted (mm : Mm) : Prop := mm.nextFreePage = 0 ∨ mm.endFreePage ≤ mm.nextFreePage

theorem init_of_loop (mem : Mem) {next : Option Nat} {stop count : Nat}
    (h : initLoop b (2 ^ 52 + 1) b.kernelEndPage none 0 = some (next, stop, count)) :
    ∃ mm, Mm.init b mem = some mm ∧ mm.Fresh (next.getD 0) stop := by
  rw [Mm.init, h]
  exact ⟨_, rfl, rfl, rfl, fun _ => rfl, rfl⟩

/-- The walk stays on the grid of pages and inside the address space. -/
theorem initLoop_aligned {fuel page count stop count' : Nat} {next next' : Option Nat}
    (h : initLoop b fuel page next count = some (next', stop, count')) (aligned : 4096 ∣ page)
    (lt : page < 2 ^ 64) (next_aligned : 4096 ∣ next.getD 0) :
    4096 ∣ next'.getD 0 ∧ stop < 2 ^ 64 := by
  induction fuel generalizing page next count with
  | zero => cases h
  | succ fuel ih =>
    have lt' : wadd page 4096 < 2 ^ 64 := Nat.mod_lt _ (by decide)
    have aligned' : 4096 ∣ wadd page 4096 := by
      unfold wadd
      omega
    rw [initLoop] at h
    split_ifs at h
    · exact ih h aligned' lt' next_aligned
    · refine ih h aligned' lt' ?_
      cases next with
      | none => exact aligned
      | some p => exact next_aligned
    · cases h
      exact ⟨next_aligned, lt⟩

/-- The state right after boot: an aligned cursor, free frames, and an empty cache. -/
structure Mm.Booted (mm : Mm) : Prop where
  wf : mm.WF
  tags : ∀ pfn, mm.pageTags pfn = .free
  live : mm.livePtPages = List.replicate maxLivePt 0
  cache : mm.pageCache = ⟨Slots.empty, 0⟩

theorem init_booted {mem : Mem} {mm : Mm} (h : Mm.init b mem = some mm) : mm.Booted := by
  obtain ⟨r, walked, rfl⟩ := Option.map_eq_some_iff.mp h
  have walk := initLoop_aligned walked b.kernelEndPage_aligned
    (by
      have : wadd b.kernelEnd 4095 < 2 ^ 64 := Nat.mod_lt _ (by decide)
      unfold BootInfo.kernelEndPage pageUp
      omega)
    (dvd_zero _)
  exact ⟨⟨walk.2, walk.1⟩, fun _ => rfl, rfl, rfl⟩

/-- Frames are left behind the kernel image, and the walk ends. -/
structure BootInfo.Leaves (b : BootInfo) : Prop where
  low : b.ramEnd + 4096 < 2 ^ 64
  room : b.kernelEndPage + 4096 ≤ b.ramEnd
  some_free : b.firstFree < b.endFree

theorem ramEnd_lt (b : BootInfo) : b.ramEnd < 2 ^ 64 := Nat.mod_lt _ (by decide)

theorem kernelEndPage_lt (b : BootInfo) : b.kernelEndPage < 2 ^ 64 := by
  have : wadd b.kernelEnd 4095 < 2 ^ 64 := Nat.mod_lt _ (by decide)
  unfold BootInfo.kernelEndPage pageUp
  omega

theorem init_leaves (h : b.Leaves) (mem : Mem) :
    ∃ mm, Mm.init b mem = some mm ∧ mm.Fresh b.firstFree b.endFree := by
  have low := h.low
  have room := h.room
  obtain ⟨n, eq⟩ := initLoop_eq low (2 ^ 52 + 1) b.kernelEndPage none 0 b.kernelEndPage_aligned
    (by omega) (fun _ => le_rfl) (by have := ramEnd_lt b; omega)
  have some_free : b.skipDtb b.kernelEndPage < b.walkEnd b.kernelEndPage := h.some_free
  rw [if_pos some_free, Option.none_or] at eq
  exact init_of_loop mem eq

/-- The kernel image ends in the last page: the cursor is set there and the walk goes on at 0. -/
theorem initLoop_wraps (wraps : ¬ b.kernelEndPage + 4096 < 2 ^ 64) :
    initLoop b (2 ^ 52 + 1) b.kernelEndPage none 0 =
      initLoop b (2 ^ 52) 0 (some b.kernelEndPage) 1 := by
  have klt := kernelEndPage_lt b
  have kal := b.kernelEndPage_aligned
  have last : b.kernelEndPage = 2 ^ 64 - 4096 := by omega
  have zero : wadd b.kernelEndPage 4096 = 0 := by
    unfold wadd
    omega
  have free : b.reserved b.kernelEndPage = false := by
    rw [Bool.eq_false_iff]
    intro keep
    have cond := (b.reserved_iff le_rfl).mp keep
    have dal := b.dtbEndPage_aligned
    have dlt : b.dtbEndPage < 2 ^ 64 := by
      have : wadd (wadd b.dtbAddr b.dtbSize) 4095 < 2 ^ 64 := Nat.mod_lt _ (by decide)
      unfold BootInfo.dtbEndPage pageUp
      split_ifs <;> omega
    omega
  rw [initLoop, zero, if_pos (Nat.zero_le _), free]
  rfl

theorem init_exhausted (h : ¬ b.Leaves) {mem : Mem} {mm : Mm} (ok : Mm.init b mem = some mm) :
    mm.Exhausted := by
  have klt := kernelEndPage_lt b
  have kal := b.kernelEndPage_aligned
  by_cases low : b.ramEnd + 4096 < 2 ^ 64
  · by_cases wraps : b.kernelEndPage + 4096 < 2 ^ 64
    · obtain ⟨n, eq⟩ := initLoop_eq low (2 ^ 52 + 1) b.kernelEndPage none 0 kal wraps
        (fun _ => le_rfl) (by have := ramEnd_lt b; omega)
      have none_free : ¬ b.skipDtb b.kernelEndPage < b.walkEnd b.kernelEndPage := by
        intro some_free
        refine h ⟨low, ?_, some_free⟩
        have ge := b.le_skipDtb b.kernelEndPage
        unfold BootInfo.walkEnd at some_free
        omega
      rw [if_neg none_free, Option.none_or] at eq
      obtain ⟨mm', eq', fresh⟩ := init_of_loop mem eq
      rw [ok] at eq'
      cases eq'
      exact Or.inl fresh.next_eq
    · obtain ⟨n, eq⟩ := initLoop_eq low (2 ^ 52) 0 (some b.kernelEndPage) 1 (dvd_zero _)
        (by norm_num) (fun h => by cases h) (by have := ramEnd_lt b; omega)
      have first := initLoop_wraps wraps
      obtain ⟨mm', eq', fresh⟩ := init_of_loop mem (first.trans eq)
      rw [ok] at eq'
      cases eq'
      refine Or.inr ?_
      rw [fresh.next_eq, fresh.end_eq, Option.some_or, Option.getD_some]
      unfold BootInfo.walkEnd
      omega
  · have none_ := initLoop_endless (b := b) (by omega) (2 ^ 52 + 1) b.kernelEndPage none 0 kal klt
    rw [Mm.init, none_] at ok
    cases ok

end CapsuleOS
