import CapsuleOS.Lib.Bytes
import CapsuleOS.Lib.Outcome
import CapsuleOS.Lib.Slots
import CapsuleOS.Shared.Status

/-!
# Physical frames

The tagged page allocator: a cursor that only moves up, a tag per frame, the tracker of live
page-table pages and the cache of freed frames. Memory is addressed by physical address; the
kernel's own mapping of it is a constant offset and does not appear.

Two fields are not in the source: `freeLog` records every call of `free_page`, also the ones that
end in the double-free panic, and a fault stands for a panic.
-/
namespace CapsuleOS

open Lib

inductive PageTag where
  | free
  | pageTable
  | vmoData
  | vmarMeta
  | kernelStack
  | kernelHeap
  deriving DecidableEq, Repr

def pageSize : Nat := 4096
def ramBase : Nat := 0x40000000
def ramSize : Nat := 0x20000000
def maxPages : Nat := ramSize / 4096
def maxLivePt : Nat := 64

structure PageCacheEntry where
  pa : Nat
  age : Nat
  dirty : Bool

structure PageCache where
  entries : Slots PageCacheEntry 64
  count : Nat

/-- The state of the memory manager. -/
structure Mm where
  mem : Mem
  nextFreePage : Nat
  endFreePage : Nat
  freePagesCount : Nat
  pageTags : Nat → PageTag
  livePtPages : List Nat
  pageCache : PageCache
  vmoIdCounter : Nat
  freeLog : List Nat

/-- A routine of the memory manager. -/
abbrev MmM := Prog Mm Status

/-! ## Page cache -/

namespace PageCache

/-- Index and age of the clean entry with the smallest age, the first one among equals. -/
def oldestClean : List (Option PageCacheEntry) → Nat → Option Nat → Nat → Option Nat
  | [], _, idx, _ => idx
  | none :: cs, i, idx, age => oldestClean cs (i + 1) idx age
  | some e :: cs, i, idx, age =>
    if !e.dirty && e.age < age then oldestClean cs (i + 1) (some i) e.age
    else oldestClean cs (i + 1) idx age

def findEvictable (c : PageCache) : Option Nat :=
  match oldestClean c.entries.cells 0 none (2 ^ 64 - 1) with
  | some idx => some idx
  | none => c.entries.cells.findIdx? fun e => e.any (·.dirty)

/-- Empty the cell with index `idx`. -/
def evict (c : PageCache) (idx : Nat) : PageCache :=
  { entries := ⟨c.entries.cells.set idx none, by simp [c.entries.size_eq]⟩
    count := wsub c.count 1 }

/-- The evicted frame is already tagged free and is not given back to the allocator. -/
def addPage (c : PageCache) (pa : Nat) (dirty : Bool) : PageCache :=
  let c := if c.count ≥ 64 then (c.findEvictable.map c.evict).getD c else c
  match c.entries.insert? { pa, age := 0, dirty } with
  | some entries => { entries, count := c.count + 1 }
  | none => c

end PageCache

/-! ## Frames and tags -/

def Mm.setMem (m : Mm) (mem : Mem) : Mm := { m with mem }

def paToPfn (pa : Nat) : Nat := wsub pa ramBase / 4096

def Mm.tag (m : Mm) (pa : Nat) : PageTag := m.pageTags (paToPfn pa)

def Mm.setTag (m : Mm) (pa : Nat) (tag : PageTag) : Mm :=
  { m with pageTags := fun pfn => if pfn = paToPfn pa then tag else m.pageTags pfn }

/-- Register in the first empty cell, unless the page is met first. -/
def registerPtPage (pa : Nat) : List Nat → List Nat
  | [] => []
  | prev :: rest =>
    if prev = pa then prev :: rest
    else if prev = 0 then pa :: rest
    else prev :: registerPtPage pa rest

def unregisterPtPage (pa : Nat) : List Nat → List Nat
  | [] => []
  | prev :: rest => if prev = pa then 0 :: rest else prev :: unregisterPtPage pa rest

def isLivePtPage (m : Mm) (pa : Nat) : Bool := pa != 0 && m.livePtPages.contains pa

/-- Take the frame under the cursor: tag it and zero it. -/
def Mm.claim (m : Mm) (tag : PageTag) (pa : Nat) : Mm :=
  { m.setTag pa tag with
    nextFreePage := pa + 4096
    freePagesCount := wsub m.freePagesCount 1
    mem := m.mem.clear pa 4096 }

/-- The allocation loop; a frame that is not tagged free is skipped. Every round moves the
cursor, so the fuel is the number of frames that are left. -/
def allocLoop (tag : PageTag) : Nat → MmM Nat
  | 0 => Prog.fault
  | fuel + 1 => fun m =>
    let pa := m.nextFreePage
    if pa = 0 ∨ pa ≥ m.endFreePage then .err .noMemory m
    else if paToPfn pa ≥ maxPages then .fault m
    else if m.tag pa ≠ .free then allocLoop tag fuel { m with nextFreePage := pa + 4096 }
    else if isLivePtPage m pa then .fault m
    else .ok pa (m.claim tag pa)

def allocPage (tag : PageTag) : MmM Nat := fun m =>
  allocLoop tag ((m.endFreePage - m.nextFreePage) / 4096 + 2) m

def allocPtPage : MmM Nat := allocPage .pageTable
def allocVmoData : MmM Nat := allocPage .vmoData
def allocVmoMeta : MmM Nat := allocPage .vmoData
def allocVmarMeta : MmM Nat := allocPage .vmarMeta
def allocKstackPage : MmM Nat := allocPage .kernelStack
def allocKheapPage : MmM Nat := allocPage .kernelHeap

/-- The effect of a `free_page` call that does not panic. -/
def Mm.release (m : Mm) (pa : Nat) : Mm :=
  { m.setTag pa .free with
    livePtPages :=
      if m.tag pa = .pageTable ∧ pa ≠ 0 then unregisterPtPage pa m.livePtPages else m.livePtPages
    pageCache := m.pageCache.addPage pa false
    freeLog := m.freeLog ++ [pa] }

def freePage (pa : Nat) : MmM Unit := fun m =>
  if paToPfn pa ≥ maxPages then .fault { m with freeLog := m.freeLog ++ [pa] }
  else if m.tag pa = .free then .fault { m with freeLog := m.freeLog ++ [pa] }
  else .ok () (m.release pa)

/-- Drop of the owner of a frame. -/
def dropPhysPage (pa : Nat) : MmM Unit := if pa = 0 then pure () else freePage pa

def dropPhysPages (pas : List Nat) : MmM Unit := Prog.forEach dropPhysPage pas

/-! ## What the allocator can do -/

/-- The frame is in RAM, at or above the cursor and in its grid, and free. -/
structure Mm.Candidate (m : Mm) (pa : Nat) : Prop where
  ge_cursor : m.nextFreePage ≤ pa
  grid : 4096 ∣ pa - m.nextFreePage
  lt_end : pa < m.endFreePage
  ge_ram : ramBase ≤ pa
  lt_ram : pa < ramBase + ramSize
  free : m.tag pa = .free
  not_live : isLivePtPage m pa = false

theorem paToPfn_of_ge {pa : Nat} (h : ramBase ≤ pa) (hlt : pa < 2 ^ 64) :
    paToPfn pa = (pa - ramBase) / 4096 := by rw [paToPfn, wsub_eq h hlt]

/-- Facts about the allocator that hold from boot on. -/
structure Mm.WF (m : Mm) : Prop where
  end_lt : m.endFreePage < 2 ^ 64
  aligned : 4096 ∣ m.nextFreePage

theorem ram_of_paToPfn {pa : Nat} (h : paToPfn pa < maxPages) (hlt : pa < 2 ^ 64) :
    ramBase ≤ pa ∧ pa < ramBase + ramSize := by
  unfold paToPfn maxPages wsub ramSize ramBase at *
  omega

/-- The allocator will not hand out the frame again. -/
def Mm.Spent (m : Mm) (pa : Nat) : Prop := pa + pageSize ≤ m.nextFreePage ∨ m.endFreePage ≤ pa

@[simp] theorem Mm.setMem_mem (m : Mm) (mem : Mem) : (m.setMem mem).mem = mem := rfl
@[simp] theorem Mm.setMem_next (m : Mm) (mem : Mem) :
    (m.setMem mem).nextFreePage = m.nextFreePage := rfl
@[simp] theorem Mm.setMem_end (m : Mm) (mem : Mem) :
    (m.setMem mem).endFreePage = m.endFreePage := rfl

@[simp] theorem Mm.setMem_tags (m : Mm) (mem : Mem) : (m.setMem mem).pageTags = m.pageTags := rfl

@[simp] theorem Mm.setMem_freeLog (m : Mm) (mem : Mem) : (m.setMem mem).freeLog = m.freeLog := rfl
@[simp] theorem Mm.setMem_setMem (m : Mm) (mem mem' : Mem) : (m.setMem mem).setMem mem' = m.setMem mem' :=
  rfl

@[simp] theorem Mm.setMem_spent (m : Mm) (mem : Mem) (q : Nat) :
    (m.setMem mem).Spent q ↔ m.Spent q := Iff.rfl

theorem Mm.WF.setMem {m : Mm} (wf : m.WF) (mem : Mem) : (m.setMem mem).WF :=
  ⟨wf.end_lt, wf.aligned⟩

theorem Mm.Candidate.aligned {m : Mm} {pa : Nat} (h : m.Candidate pa) (wf : m.WF) :
    pageSize ∣ pa := by
  have grid := h.grid
  have base := wf.aligned
  have ge := h.ge_cursor
  unfold pageSize
  omega

theorem Mm.Candidate.not_spent {m : Mm} {pa q : Nat} (h : m.Candidate pa) (hq : m.Spent q) :
    q ≠ pa := by
  have := h.ge_cursor
  have := h.lt_end
  unfold Mm.Spent pageSize at hq
  omega

theorem Mm.Candidate.lt_word {m : Mm} {pa : Nat} (h : m.Candidate pa) : pa < 2 ^ 64 := by
  have := h.lt_ram
  unfold ramBase ramSize at this
  omega

theorem Mm.Candidate.lt_addr {mm : Mm} {pa : Nat} (h : mm.Candidate pa) : pa < 2 ^ 48 := by
  have := h.lt_ram
  unfold ramBase ramSize at this
  omega

theorem Mm.Candidate.of_skip {m : Mm} {pa : Nat}
    (h : Mm.Candidate { m with nextFreePage := m.nextFreePage + 4096 } pa) : m.Candidate pa where
  ge_cursor := by have := h.ge_cursor; simp at this; omega
  grid := by
    have ge := h.ge_cursor
    have grid := h.grid
    simp at ge grid
    omega
  lt_end := h.lt_end
  ge_ram := h.ge_ram
  lt_ram := h.lt_ram
  free := h.free
  not_live := h.not_live

/-- The cursor has been moved past frames that are not free. -/
def Mm.skipTo (m : Mm) (n : Nat) : Mm := { m with nextFreePage := n }

/-- The three ways an allocation ends. -/
inductive AllocResult (tag : PageTag) (m : Mm) : Outcome Mm Status Nat → Prop where
  | taken (pa : Nat) (h : m.Candidate pa) : AllocResult tag m (.ok pa (m.claim tag pa))
  | exhausted (n : Nat) (h : m.nextFreePage ≤ n) (grid : 4096 ∣ n - m.nextFreePage) :
      AllocResult tag m (.err .noMemory (m.skipTo n))
  | panicked (n : Nat) (h : m.nextFreePage ≤ n) (grid : 4096 ∣ n - m.nextFreePage) :
      AllocResult tag m (.fault (m.skipTo n))

theorem allocLoop_result (tag : PageTag) (fuel : Nat) (m : Mm) (wf : m.endFreePage < 2 ^ 64) :
    AllocResult tag m (allocLoop tag fuel m) := by
  induction fuel generalizing m with
  | zero => exact .panicked m.nextFreePage le_rfl (by simp)
  | succ fuel ih =>
    simp only [allocLoop]
    split_ifs with range pfn skip live
    · exact .exhausted m.nextFreePage le_rfl (by simp)
    · exact .panicked m.nextFreePage le_rfl (by simp)
    · -- the frame is taken: the rest of the loop runs from the next one
      have rest := ih { m with nextFreePage := m.nextFreePage + 4096 } wf
      generalize allocLoop tag fuel _ = out at rest
      cases rest with
      | taken pa h => exact .taken pa h.of_skip
      | exhausted n h grid => exact .exhausted n (by simp at h; omega) (by simp at h grid; omega)
      | panicked n h grid => exact .panicked n (by simp at h; omega) (by simp at h grid; omega)
    · exact .panicked m.nextFreePage le_rfl (by simp)
    · have ram := ram_of_paToPfn (by omega) (by omega : m.nextFreePage < 2 ^ 64)
      exact .taken _ ⟨le_rfl, by simp, by omega, ram.1, ram.2, by simpa using skip, by simpa using live⟩

theorem allocPage_result (tag : PageTag) (m : Mm) (wf : m.endFreePage < 2 ^ 64) :
    AllocResult tag m (allocPage tag m) := allocLoop_result tag _ m wf

theorem Mm.WF.claim {m : Mm} (wf : m.WF) {tag : PageTag} {pa : Nat} (h : m.Candidate pa) :
    (m.claim tag pa).WF where
  end_lt := wf.end_lt
  aligned := by
    have := h.aligned wf
    simp only [Mm.claim, Mm.setTag, pageSize] at *
    omega

theorem Mm.WF.skipTo {m : Mm} (wf : m.WF) {n : Nat} (h : m.nextFreePage ≤ n)
    (grid : 4096 ∣ n - m.nextFreePage) : (m.skipTo n).WF where
  end_lt := wf.end_lt
  aligned := by
    have := wf.aligned
    simp only [Mm.skipTo]
    omega

theorem Mm.Spent.skipTo {m : Mm} {n q : Nat} (hq : m.Spent q) (h : m.nextFreePage ≤ n) :
    (m.skipTo n).Spent q := by
  simp only [Mm.Spent, Mm.skipTo] at *
  omega

theorem Mm.Spent.claim {m : Mm} {pa q : Nat} (hq : m.Spent q) (tag : PageTag)
    (h : m.Candidate pa) : (m.claim tag pa).Spent q := by
  have := h.ge_cursor
  simp only [Mm.Spent, Mm.claim, Mm.setTag, pageSize] at *
  omega

theorem Mm.spent_claim_self (m : Mm) (tag : PageTag) (pa : Nat) : (m.claim tag pa).Spent pa :=
  Or.inl (by simp [Mm.claim, pageSize])

/-! ## Room for allocations -/

/-- The next `k` allocations succeed. -/
def Mm.CanAlloc (m : Mm) (tag : PageTag) : Nat → Prop
  | 0 => True
  | k + 1 => ∃ pa m', allocPage tag m = .ok pa m' ∧ Mm.CanAlloc m' tag k

/-- The two states differ in nothing the allocator looks at. -/
structure Mm.SameAlloc (m m' : Mm) : Prop where
  next_eq : m'.nextFreePage = m.nextFreePage
  end_eq : m'.endFreePage = m.endFreePage
  tags_eq : m'.pageTags = m.pageTags
  live_eq : m'.livePtPages = m.livePtPages

theorem allocLoop_sameAlloc {tag : PageTag} {fuel : Nat} {m m' : Mm} (same : m.SameAlloc m')
    {pa : Nat} {t : Mm} (h : allocLoop tag fuel m = .ok pa t) :
    ∃ t', allocLoop tag fuel m' = .ok pa t' ∧ t.SameAlloc t' := by
  induction fuel generalizing m m' with
  | zero => cases h
  | succ fuel ih =>
    have tag_eq : ∀ q, m'.tag q = m.tag q := fun q => by rw [Mm.tag, Mm.tag, same.tags_eq]
    have live_eq : ∀ q, isLivePtPage m' q = isLivePtPage m q := fun q => by
      rw [isLivePtPage, isLivePtPage, same.live_eq]
    simp only [allocLoop, same.next_eq, same.end_eq, tag_eq, live_eq] at h ⊢
    split_ifs at h ⊢
    · refine ih ?_ h
      exact ⟨rfl, rfl, same.tags_eq, same.live_eq⟩
    · cases h
      refine ⟨_, rfl, rfl, same.end_eq, ?_, same.live_eq⟩
      simp only [Mm.claim, Mm.setTag, same.tags_eq]

theorem Mm.CanAlloc.congr {tag : PageTag} {k : Nat} {m m' : Mm} (h : m.CanAlloc tag k)
    (same : m.SameAlloc m') : m'.CanAlloc tag k := by
  induction k generalizing m m' with
  | zero => trivial
  | succ k ih =>
    obtain ⟨pa, t, halloc, rest⟩ := h
    obtain ⟨t', halloc', same'⟩ := allocLoop_sameAlloc same halloc
    refine ⟨pa, t', ?_, ih rest same'⟩
    rwa [allocPage, same.next_eq, same.end_eq]

/-- A run of free frames under the cursor can be allocated. -/
theorem Mm.canAlloc_of_free {tag : PageTag} {k : Nat} {m : Mm} (lo : ramBase ≤ m.nextFreePage)
    (hi : m.nextFreePage + 4096 * k ≤ m.endFreePage)
    (ram : m.nextFreePage + 4096 * k ≤ ramBase + ramSize)
    (free : ∀ i < k, m.tag (m.nextFreePage + 4096 * i) = .free)
    (idle : ∀ i < k, isLivePtPage m (m.nextFreePage + 4096 * i) = false) : m.CanAlloc tag k := by
  induction k generalizing m with
  | zero => trivial
  | succ k ih =>
    have pfn : ∀ i ≤ k, paToPfn (m.nextFreePage + 4096 * i) =
        (m.nextFreePage - ramBase + 4096 * i) / 4096 := by
      intro i hik
      have shift : m.nextFreePage + 4096 * i - ramBase = m.nextFreePage - ramBase + 4096 * i := by
        omega
      rw [paToPfn_of_ge (by omega) (by simp only [ramBase, ramSize] at ram; omega), shift]
    have first : allocPage tag m = .ok m.nextFreePage (m.claim tag m.nextFreePage) := by
      have free0 := free 0 (by omega)
      have idle0 := idle 0 (by omega)
      have pfn0 := pfn 0 (by omega)
      rw [Nat.mul_zero, Nat.add_zero] at free0 idle0 pfn0
      rw [Nat.add_zero] at pfn0
      have in_tags : ¬ paToPfn m.nextFreePage ≥ maxPages := by
        simp only [pfn0, maxPages, ramBase, ramSize] at ram lo ⊢
        omega
      have in_range : ¬ (m.nextFreePage = 0 ∨ m.nextFreePage ≥ m.endFreePage) := by
        simp only [ramBase] at lo
        omega
      simp [allocPage, allocLoop, in_range, in_tags, free0, idle0]
    refine ⟨_, _, first, ih ?_ ?_ ?_ ?_ ?_⟩
    · simp only [Mm.claim, Mm.setTag]; omega
    · simp only [Mm.claim, Mm.setTag]; omega
    · simp only [Mm.claim, Mm.setTag]; omega
    · intro i hik
      have shift : m.nextFreePage + 4096 + 4096 * i = m.nextFreePage + 4096 * (i + 1) := by omega
      have ne : paToPfn (m.nextFreePage + 4096 * (i + 1)) ≠ paToPfn m.nextFreePage := by
        have here := pfn 0 (by omega)
        rw [Nat.mul_zero, Nat.add_zero, Nat.add_zero] at here
        rw [pfn (i + 1) (by omega), here]
        omega
      have kept := free (i + 1) (by omega)
      simp only [Mm.tag, Mm.claim, Mm.setTag] at kept ⊢
      rw [shift, if_neg ne, kept]
    · intro i hik
      have shift : m.nextFreePage + 4096 + 4096 * i = m.nextFreePage + 4096 * (i + 1) := by omega
      have kept := idle (i + 1) (by omega)
      simp only [isLivePtPage, Mm.claim, Mm.setTag] at kept ⊢
      rw [shift, kept]

/-- The state that `init` leaves when no device tree blob is in the way: every frame from the end
of the kernel image to the end of RAM is free. -/
def Mm.boot (kernelEndPage ramEnd : Nat) : Mm where
  mem _ := 0
  nextFreePage := kernelEndPage
  endFreePage := ramEnd
  freePagesCount := (ramEnd - kernelEndPage) / 4096
  pageTags _ := .free
  livePtPages := List.replicate maxLivePt 0
  pageCache := ⟨Slots.empty, 0⟩
  vmoIdCounter := 1
  freeLog := []

theorem Mm.boot_canAlloc {tag : PageTag} {kernelEndPage ramEnd k : Nat} (lo : ramBase ≤ kernelEndPage)
    (hi : kernelEndPage + 4096 * k ≤ ramEnd) (ram : ramEnd ≤ ramBase + ramSize) :
    (Mm.boot kernelEndPage ramEnd).CanAlloc tag k := by
  refine Mm.canAlloc_of_free lo hi (hi.trans ram) (fun _ _ => rfl) fun i _ => ?_
  have pos : kernelEndPage + 4096 * i ≠ 0 := by
    simp only [ramBase] at lo
    omega
  have absent : ¬ (Mm.boot kernelEndPage ramEnd).livePtPages.contains (kernelEndPage + 4096 * i) := by
    rw [List.contains_iff_mem]
    exact fun h => pos (List.eq_of_mem_replicate h)
  simp only [isLivePtPage, Mm.boot] at absent ⊢
  simp only [absent, Bool.and_false]

theorem Mm.CanAlloc.le {tag : PageTag} {j k : Nat} {m : Mm} (h : m.CanAlloc tag k)
    (le : j ≤ k) : m.CanAlloc tag j := by
  induction j generalizing k m with
  | zero => trivial
  | succ j ih =>
    obtain ⟨k, rfl⟩ : ∃ i, k = i + 1 := ⟨k - 1, by omega⟩
    obtain ⟨pa, t, halloc, rest⟩ := h
    exact ⟨pa, t, halloc, ih rest (by omega)⟩

/-! ## Frame conditions -/

/-- The two states differ in nothing but tags, counters and lists of frames. -/
structure Mm.Still (m m' : Mm) : Prop where
  mem_eq : m'.mem = m.mem
  next_eq : m'.nextFreePage = m.nextFreePage
  end_eq : m'.endFreePage = m.endFreePage

namespace Mm

variable {m m' : Mm}

theorem Still.refl (m : Mm) : m.Still m := ⟨rfl, rfl, rfl⟩

theorem Still.trans {m₁ m₂ m₃ : Mm} (h : m₁.Still m₂) (h' : m₂.Still m₃) : m₁.Still m₃ :=
  ⟨h'.mem_eq.trans h.mem_eq, h'.next_eq.trans h.next_eq, h'.end_eq.trans h.end_eq⟩

instance : Std.Refl Still := ⟨.refl⟩
instance : IsTrans Mm Still := ⟨fun _ _ _ => .trans⟩

theorem Still.spent (h : m.Still m') {q : Nat} : m'.Spent q ↔ m.Spent q := by
  simp [Spent, h.next_eq, h.end_eq]

theorem Still.wf (h : m.Still m') (wf : m.WF) : m'.WF :=
  ⟨h.end_eq ▸ wf.end_lt, h.next_eq ▸ wf.aligned⟩

theorem freePage_still (pa : Nat) : Prog.Within Still (freePage pa) := by
  intro m
  unfold freePage
  split_ifs <;> exact ⟨rfl, rfl, rfl⟩

theorem dropPhysPage_still (pa : Nat) : Prog.Within Still (dropPhysPage pa) := by
  unfold dropPhysPage
  split_ifs
  · exact .pure ()
  · exact freePage_still pa

theorem dropPhysPages_still (pas : List Nat) : Prog.Within Still (dropPhysPages pas) :=
  .forEach fun pa _ => dropPhysPage_still pa

end Mm

/-- Giving a frame back succeeds or faults. -/
theorem noErr_dropPhysPage (pa : Nat) : Prog.NoErr (dropPhysPage pa) := by
  intro m e m' h
  unfold dropPhysPage at h
  split_ifs at h with zero
  · cases h
  · unfold freePage at h
    split_ifs at h

theorem noErr_dropPhysPages (pas : List Nat) : Prog.NoErr (dropPhysPages pas) :=
  .forEach noErr_dropPhysPage pas

/-- A frame is handed out, or the cursor has moved without one. -/
theorem allocPage_post {m : Mm} (wf : m.WF) (tag : PageTag) :
    Prog.Post (allocPage tag) m (fun pa m' => m.Candidate pa ∧ m' = m.claim tag pa)
      (fun m' => ∃ n, m.nextFreePage ≤ n ∧ 4096 ∣ n - m.nextFreePage ∧ m' = m.skipTo n) := by
  have result := allocPage_result tag m wf.end_lt
  generalize run : allocPage tag m = out at result
  cases result with
  | taken pa cand => exact .of_ok ⟨pa, _, run, cand, rfl⟩
  | exhausted n ge grid => exact .of_err run ⟨n, ge, grid, rfl⟩
  | panicked n ge grid => exact .of_fault run ⟨n, ge, grid, rfl⟩

end CapsuleOS
