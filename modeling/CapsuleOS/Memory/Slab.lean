import CapsuleOS.Lib.Links
import CapsuleOS.Memory.PhysInit

/-!
# The kernel heap

Seven free lists, one for each block size, whose links are stored in the free blocks themselves. An
empty list is filled with the blocks of a new page; a page never goes back.

Addresses are physical, and a null pointer is 0. The list of the pages of the heap is not in the
source.
-/
namespace CapsuleOS

open Lib

def classSizes : List Nat := [32, 64, 128, 256, 512, 1024, 2048]
def pageHeader : Nat := 8

def blockSize (ci : Nat) : Nat := classSizes.getD ci 0

def classIndex (size align : Nat) : Option Nat :=
  classSizes.findIdx? fun cs => max size align ≤ cs

def blocksPerPage (block_size : Nat) : Nat := (pageSize - pageHeader) / block_size

/-- The allocator and the memory manager under it. -/
structure Slab where
  mm : Mm
  heads : Nat → Nat
  pages : List (Nat × Nat)

abbrev SlabM := Prog Slab Status

namespace Slab

def onMm {α : Type} (m : MmM α) : SlabM α := Prog.zoom mm (fun mm s => { s with mm }) m

def setMem (s : Slab) (mem : Mem) : Slab := { s with mm := s.mm.setMem mem }

def setHead (s : Slab) (ci head : Nat) : Slab := { s with heads := Function.update s.heads ci head }

@[simp] theorem setHead_mm (s : Slab) (ci head : Nat) : (s.setHead ci head).mm = s.mm := rfl

@[simp] theorem setHead_pages (s : Slab) (ci head : Nat) : (s.setHead ci head).pages = s.pages := rfl

theorem setHead_self (s : Slab) (ci head : Nat) : (s.setHead ci head).heads ci = head :=
  Function.update_self ..

theorem setHead_ne (s : Slab) {ci cj : Nat} (ne : cj ≠ ci) (head : Nat) :
    (s.setHead ci head).heads cj = s.heads cj := Function.update_of_ne ne ..

/-- The address of the block with number `i` in a page. -/
def blockAt (page ci i : Nat) : Nat := page + pageHeader + i * blockSize ci

/-- The loop that leads each block of a page but the last to the next one. -/
def linkBlocks (page ci last : Nat) (mem : Mem) : Mem :=
  (List.range last).foldl (fun mem i => mem.store64 (blockAt page ci i) (blockAt page ci (i + 1))) mem

/-- The contents of a new page: the former head, and the list of its blocks. -/
def buildPage (page ci prev : Nat) (mem : Mem) : Mem :=
  let last := blocksPerPage (blockSize ci) - 1
  (linkBlocks page ci last (mem.store64 page prev)).store64 (blockAt page ci last) 0

def refill (ci : Nat) : SlabM Unit :=
  if blocksPerPage (blockSize ci) = 0 then pure ()
  else do
    match ← Prog.attempt (onMm allocKheapPage) with
    | .error _ => pure ()
    | .ok pa =>
      Prog.modify fun s => s.setMem (buildPage pa ci (s.heads ci) s.mm.mem)
      Prog.modify fun s => { s.setHead ci (blockAt pa ci 0) with pages := (pa, ci) :: s.pages }

/-- Take the first block of a list, or null. -/
def pop (ci : Nat) : SlabM Nat := fun s =>
  if s.heads ci = 0 then .ok 0 s
  else .ok (s.heads ci) (s.setHead ci (s.mm.mem.load64 (s.heads ci)))

def allocate (size align : Nat) : SlabM Nat :=
  if align > 64 then pure 0
  else
    match classIndex size align with
    | none => pure 0
    | some ci => do
      let s ← Prog.get
      if s.heads ci = 0 then refill ci
      pop ci

def deallocate (ptr size align : Nat) : SlabM Unit :=
  match classIndex size align with
  | none => pure ()
  | some ci => Prog.modify fun s => (s.setMem (s.mm.mem.store64 ptr (s.heads ci))).setHead ci ptr

end Slab

/-! ## Classes -/

theorem classIndex_lt {size align ci : Nat} (h : classIndex size align = some ci) : ci < 7 := by
  obtain ⟨lt, _⟩ := List.findIdx?_eq_some_iff_getElem.mp h
  exact lt

/-- A block holds what it is asked for. -/
theorem le_blockSize {size align ci : Nat} (h : classIndex size align = some ci) :
    size ≤ blockSize ci := by
  obtain ⟨lt, holds, _⟩ := List.findIdx?_eq_some_iff_getElem.mp h
  have eq : blockSize ci = classSizes[ci] := by
    rw [blockSize, List.getD_eq_getElem?_getD, List.getElem?_eq_getElem lt, Option.getD_some]
  rw [eq]
  simp only [decide_eq_true_eq] at holds
  exact (le_max_left _ _).trans holds

/-- Sizes for which there is no class. -/
theorem classIndex_eq_none {size align : Nat} : classIndex size align = none ↔ 2048 < max size align := by
  rw [classIndex, List.findIdx?_eq_none_iff]
  simp only [classSizes, List.mem_cons, List.not_mem_nil, or_false, decide_eq_false_iff_not, not_le,
    forall_eq_or_imp, forall_eq]
  omega

/-- The blocks of a class fit behind the header, and a link fits in a block. -/
theorem class_bounds {ci : Nat} (h : ci < 7) :
    8 ≤ blockSize ci ∧ 0 < blocksPerPage (blockSize ci) ∧
      pageHeader + blocksPerPage (blockSize ci) * blockSize ci ≤ pageSize := by
  interval_cases ci <;> decide

namespace Slab

/-! ## One allocation -/

section Allocate

variable {s : Slab} {size align ci : Nat}

theorem allocate_none (small : align ≤ 64) (none_ : classIndex size align = none) :
    allocate size align s = .ok 0 s := by
  unfold allocate
  rw [if_neg (Nat.not_lt_of_le small), none_]
  rfl

theorem allocate_head (small : align ≤ 64) (class_ : classIndex size align = some ci)
    (head : s.heads ci ≠ 0) :
    allocate size align s = .ok (s.heads ci) (s.setHead ci (s.mm.mem.load64 (s.heads ci))) := by
  unfold allocate
  rw [if_neg (Nat.not_lt_of_le small), class_]
  refine (Prog.bind_ok (Prog.get_apply s)).trans ?_
  rw [if_neg head]
  exact if_neg head

theorem allocate_empty (small : align ≤ 64) (class_ : classIndex size align = some ci)
    (empty : s.heads ci = 0) : allocate size align s = (refill ci >>= fun _ => pop ci) s := by
  unfold allocate
  rw [if_neg (Nat.not_lt_of_le small), class_]
  refine (Prog.bind_ok (Prog.get_apply s)).trans ?_
  rw [if_pos empty]

/-- What is left of a state when a page has been added to a list. -/
def withPage (s : Slab) (ci pa : Nat) (mm : Mm) : Slab :=
  { ({ s with mm }.setMem (buildPage pa ci (s.heads ci) mm.mem)).setHead ci (blockAt pa ci 0) with
    pages := (pa, ci) :: s.pages }

theorem refill_ok (class_lt : ci < 7) {pa : Nat} {mm : Mm} (taken : allocKheapPage s.mm = .ok pa mm) :
    refill ci s = .ok () (s.withPage ci pa mm) := by
  have some_block := (class_bounds class_lt).2.1
  have page : onMm allocKheapPage s = .ok pa { s with mm } := Prog.zoom_ok taken
  unfold refill
  rw [if_neg (by omega)]
  refine (Prog.bind_ok (Prog.attempt_ok page)).trans ?_
  rfl

theorem refill_err (class_lt : ci < 7) {e : Status} {mm : Mm} (refused : allocKheapPage s.mm = .err e mm) :
    refill ci s = .ok () { s with mm } := by
  have some_block := (class_bounds class_lt).2.1
  have page : onMm allocKheapPage s = .err e { s with mm } := Prog.zoom_err refused
  unfold refill
  rw [if_neg (by omega)]
  exact (Prog.bind_ok (Prog.attempt_err page)).trans rfl

theorem refill_fault (class_lt : ci < 7) {mm : Mm} (panicked : allocKheapPage s.mm = .fault mm) :
    refill ci s = .fault { s with mm } := by
  have some_block := (class_bounds class_lt).2.1
  have page : onMm allocKheapPage s = .fault { s with mm } := Prog.zoom_fault panicked
  unfold refill
  rw [if_neg (by omega)]
  exact Prog.bind_fault (Prog.attempt_fault page)

theorem blockAt_ne_zero (page ci i : Nat) : blockAt page ci i ≠ 0 := by
  unfold blockAt pageHeader
  omega

/-- The first block of a new page. -/
theorem allocate_first (small : align ≤ 64) (class_ : classIndex size align = some ci)
    (empty : s.heads ci = 0) {pa : Nat} {mm : Mm} (taken : allocKheapPage s.mm = .ok pa mm) :
    allocate size align s = .ok (blockAt pa ci 0) ((s.withPage ci pa mm).setHead ci
      ((s.withPage ci pa mm).mm.mem.load64 (blockAt pa ci 0))) := by
  have first : (s.withPage ci pa mm).heads ci = blockAt pa ci 0 := setHead_self ..
  rw [allocate_empty small class_ empty, Prog.bind_ok (refill_ok (classIndex_lt class_) taken), pop,
    first, if_neg (blockAt_ne_zero pa ci 0)]

end Allocate

/-! ## Blocks -/

/-- The address is that of a block of this class, in a page of the heap. -/
def IsBlock (pages : List (Nat × Nat)) (ci a : Nat) : Prop :=
  ∃ page i, (page, ci) ∈ pages ∧ i < blocksPerPage (blockSize ci) ∧ a = blockAt page ci i

/-- The two blocks have no byte in common. -/
def Disjoint (ci a cj b : Nat) : Prop := a + blockSize ci ≤ b ∨ b + blockSize cj ≤ a

/-- The pages of the heap: each is used once and for one class, and will not be handed out again. -/
structure Pages (mm : Mm) (pages : List (Nat × Nat)) : Prop where
  nodup : (pages.map (·.1)).Nodup
  class_lt : ∀ p ∈ pages, p.2 < 7
  aligned : ∀ p ∈ pages, pageSize ∣ p.1
  ge_ram : ∀ p ∈ pages, ramBase ≤ p.1
  lt_ram : ∀ p ∈ pages, p.1 < ramBase + ramSize
  spent : ∀ p ∈ pages, mm.Spent p.1

variable {mm mm' : Mm} {pages : List (Nat × Nat)} {ci cj a b page i : Nat}

/-- A block lies in its page, behind the header. -/
theorem block_in_page (page : Nat) (class_lt : ci < 7) (lt : i < blocksPerPage (blockSize ci)) :
    page + pageHeader ≤ blockAt page ci i ∧ blockAt page ci i + blockSize ci ≤ page + pageSize := by
  obtain ⟨_, _, fits⟩ := class_bounds class_lt
  have stride : (i + 1) * blockSize ci ≤ blocksPerPage (blockSize ci) * blockSize ci :=
    Nat.mul_le_mul_right _ lt
  rw [Nat.succ_mul] at stride
  unfold blockAt
  omega

/-- Different blocks have no byte in common. -/
theorem Pages.disjoint (h : Pages mm pages) (ha : IsBlock pages ci a) (hb : IsBlock pages cj b)
    (ne : a ≠ b) : Disjoint ci a cj b := by
  obtain ⟨p, i, mem_p, lt_i, rfl⟩ := ha
  obtain ⟨q, j, mem_q, lt_j, rfl⟩ := hb
  have lt_ci : ci < 7 := h.class_lt _ mem_p
  have lt_cj : cj < 7 := h.class_lt _ mem_q
  have in_p := block_in_page p lt_ci lt_i
  have in_q := block_in_page q lt_cj lt_j
  unfold Disjoint
  by_cases same : p = q
  · -- two blocks of one page have one class
    subst same
    have class_eq : ci = cj := by
      have := List.inj_on_of_nodup_map h.nodup mem_p mem_q rfl
      exact congrArg Prod.snd this
    subst class_eq
    rcases Nat.lt_trichotomy i j with lt | eq | gt
    · have stride := Nat.mul_le_mul_right (blockSize ci) (Nat.succ_le_of_lt lt)
      rw [Nat.succ_mul] at stride
      unfold blockAt
      omega
    · exact absurd (by rw [eq]) ne
    · have stride := Nat.mul_le_mul_right (blockSize ci) (Nat.succ_le_of_lt gt)
      rw [Nat.succ_mul] at stride
      unfold blockAt
      omega
  · have al_p : pageSize ∣ p := h.aligned _ mem_p
    have al_q : pageSize ∣ q := h.aligned _ mem_q
    unfold pageSize pageHeader at *
    omega

/-- A block has one class. -/
theorem Pages.class_unique (h : Pages mm pages) (ha : IsBlock pages ci a) (hb : IsBlock pages cj a) :
    ci = cj := by
  obtain ⟨p, i, mem_p, lt_i, at_p⟩ := ha
  obtain ⟨q, j, mem_q, lt_j, at_q⟩ := hb
  have lt_ci : ci < 7 := h.class_lt _ mem_p
  have lt_cj : cj < 7 := h.class_lt _ mem_q
  have in_p := block_in_page p lt_ci lt_i
  have in_q := block_in_page q lt_cj lt_j
  have al_p : pageSize ∣ p := h.aligned _ mem_p
  have al_q : pageSize ∣ q := h.aligned _ mem_q
  have big_p := (class_bounds lt_ci).1
  have big_q := (class_bounds lt_cj).1
  have same : p = q := by
    unfold pageSize pageHeader at *
    omega
  subst same
  exact congrArg Prod.snd (List.inj_on_of_nodup_map h.nodup mem_p mem_q rfl)

/-! ## Free lists -/

def toLink (v : Nat) : Option Nat := if v = 0 then none else some v

/-- The link stored in a free block. -/
def link (mem : Mem) (a : Nat) : Option Nat := toLink (mem.load64 a)

/-- The list of the given blocks starts at `head`. -/
def FreeList (mem : Mem) (head : Nat) (xs : List Nat) : Prop := Links.Path (link mem) (toLink head) xs none

variable {mem mem' : Mem} {head ptr : Nat} {xs : List Nat}

theorem freeList_nil : FreeList mem 0 [] := rfl

theorem FreeList.eq_nil (h : FreeList mem 0 xs) : xs = [] := by
  cases xs with
  | nil => rfl
  | cons x xs => cases h.1

theorem FreeList.uncons (h : FreeList mem head xs) (some_head : head ≠ 0) :
    ∃ ys, xs = head :: ys ∧ FreeList mem (mem.load64 head) ys := by
  have start : toLink head = some head := if_neg some_head
  unfold FreeList at h
  rw [start] at h
  cases xs with
  | nil => cases h
  | cons x ys =>
    obtain ⟨eq, rest⟩ := h
    cases eq
    exact ⟨ys, rfl, rest⟩

/-- Only the links matter. -/
theorem FreeList.congr (h : FreeList mem head xs) (same : ∀ x ∈ xs, Mem.SameOn mem mem' x 8) :
    FreeList mem' head xs :=
  Links.Path.congr h fun x here => by rw [link, link, (same x here).load64]

theorem FreeList.head_mem (h : FreeList mem head xs) : head = 0 ∨ head ∈ xs := by
  by_cases none_left : head = 0
  · exact Or.inl none_left
  · obtain ⟨ys, rfl, _⟩ := h.uncons none_left
    exact Or.inr List.mem_cons_self

/-- Put a block in front. -/
theorem FreeList.push (h : FreeList mem head xs) (pos : ptr ≠ 0) (head_lt : head < 2 ^ 64)
    (away : ∀ x ∈ xs, x + 8 ≤ ptr ∨ ptr + 8 ≤ x) : FreeList (mem.store64 ptr head) ptr (ptr :: xs) := by
  have old := h.congr fun x here => Mem.store64_sameOn (v := head) (away x here)
  refine ⟨if_neg pos, ?_⟩
  rw [link, Mem.load64_store64_of_lt head_lt]
  exact old

/-! ## A new page -/

section Build

variable (class_lt : ci < 7)

include class_lt

theorem blockAt_lt (page : Nat) {i j : Nat} (lt : i < j) : blockAt page ci i + 8 ≤ blockAt page ci j := by
  have big := (class_bounds class_lt).1
  have stride := Nat.mul_le_mul_right (blockSize ci) (Nat.succ_le_of_lt lt)
  rw [Nat.succ_mul] at stride
  unfold blockAt
  omega

theorem linkBlocks_sameOn {last : Nat} (le : last ≤ blocksPerPage (blockSize ci)) {n : Nat}
    (away : a + n ≤ page ∨ page + pageSize ≤ a) : Mem.SameOn mem (linkBlocks page ci last mem) a n := by
  induction last with
  | zero => exact .refl _ _ _
  | succ last ih =>
    have inside := block_in_page page class_lt (by omega : last < blocksPerPage (blockSize ci))
    have big := (class_bounds class_lt).1
    rw [linkBlocks, List.range_succ, List.foldl_append]
    refine (ih (by omega)).trans (Mem.store64_sameOn ?_)
    unfold pageHeader at inside
    omega

/-- The loop has led the blocks it has passed to their successors, and touched no other. -/
theorem linkBlocks_load {last : Nat} (le : last < blocksPerPage (blockSize ci))
    (low : page + pageSize < 2 ^ 64) (j : Nat) :
    (linkBlocks page ci last mem).load64 (blockAt page ci j) =
      if j < last then blockAt page ci (j + 1) else mem.load64 (blockAt page ci j) := by
  induction last with
  | zero => rfl
  | succ last ih =>
    have next_lt : blockAt page ci (last + 1) < 2 ^ 64 := by
      have inside := block_in_page page class_lt le
      omega
    rw [linkBlocks, List.range_succ, List.foldl_append]
    change ((linkBlocks page ci last mem).store64 _ _).load64 _ = _
    rcases Nat.lt_trichotomy j last with lt | rfl | gt
    · have away := blockAt_lt class_lt page lt
      rw [(Mem.store64_sameOn (Or.inl away)).load64, ih (by omega), if_pos lt, if_pos (by omega)]
    · rw [Mem.load64_store64_of_lt next_lt, if_pos (by omega)]
    · have away := blockAt_lt class_lt page gt
      rw [(Mem.store64_sameOn (Or.inr away)).load64, ih (by omega), if_neg (by omega),
        if_neg (by omega)]

theorem buildPage_sameOn {n prev : Nat} (away : a + n ≤ page ∨ page + pageSize ≤ a) :
    Mem.SameOn mem (buildPage page ci prev mem) a n := by
  obtain ⟨big, pos, fits⟩ := class_bounds class_lt
  have inside := block_in_page page class_lt
    (by omega : blocksPerPage (blockSize ci) - 1 < blocksPerPage (blockSize ci))
  have header : Mem.SameOn mem (mem.store64 page prev) a n :=
    Mem.store64_sameOn (by unfold pageSize at away; omega)
  refine (header.trans (linkBlocks_sameOn class_lt (by omega) away)).trans (Mem.store64_sameOn ?_)
  unfold pageHeader at inside
  omega

/-- The list of a new page passes all its blocks. -/
theorem buildPage_freeList (low : page + pageSize < 2 ^ 64) (pos : page ≠ 0) (prev : Nat) :
    FreeList (buildPage page ci prev mem) (blockAt page ci 0)
      ((List.range (blocksPerPage (blockSize ci))).map (blockAt page ci)) := by
  obtain ⟨big, some_block, fits⟩ := class_bounds class_lt
  have nonzero : ∀ i, blockAt page ci i ≠ 0 := fun i => by
    unfold blockAt
    omega
  have start : toLink (blockAt page ci 0) = some (blockAt page ci 0) := if_neg (nonzero 0)
  unfold FreeList
  rw [start]
  refine Links.path_range (fun i lt => ?_) (fun i eq => ?_) some_block
  · have away := blockAt_lt class_lt page (by omega : i < blocksPerPage (blockSize ci) - 1)
    rw [link, buildPage, (Mem.store64_sameOn (Or.inl away)).load64,
      linkBlocks_load class_lt (by omega) low, if_pos (by omega)]
    exact if_neg (nonzero _)
  · have last : blocksPerPage (blockSize ci) - 1 = i := by omega
    rw [link, buildPage, last, Mem.load64_store64_of_lt (by norm_num)]
    rfl

omit class_lt in
/-- The first two blocks of a new page. -/
theorem allocate_two {s : Slab} {size align pa : Nat} (small : align ≤ 64) (at_class : classIndex size align = some ci)
    (empty : s.heads ci = 0) {mm : Mm} (taken : allocKheapPage s.mm = .ok pa mm) (low : pa + pageSize < 2 ^ 64)
    (more : 1 < blocksPerPage (blockSize ci)) : ∃ s₁ s₂, allocate size align s = .ok (blockAt pa ci 0) s₁ ∧
      allocate size align s₁ = .ok (blockAt pa ci 1) s₂ := by
  have class_lt := classIndex_lt at_class
  have away := blockAt_lt class_lt pa (by omega : 0 < blocksPerPage (blockSize ci) - 1)
  have link : (s.withPage ci pa mm).mm.mem.load64 (blockAt pa ci 0) = blockAt pa ci 1 := by
    change (buildPage pa ci (s.heads ci) mm.mem).load64 (blockAt pa ci 0) = _
    rw [buildPage, (Mem.store64_sameOn (Or.inl away)).load64, linkBlocks_load class_lt (by omega) low,
      if_pos (by omega)]
  have first := allocate_first small at_class empty taken
  rw [link] at first
  have head : ((s.withPage ci pa mm).setHead ci (blockAt pa ci 1)).heads ci = blockAt pa ci 1 := setHead_self ..
  have second := allocate_head small at_class (head ▸ blockAt_ne_zero pa ci 1)
  rw [head] at second
  exact ⟨_, _, first, second⟩

end Build

end Slab

end CapsuleOS
