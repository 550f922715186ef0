import CapsuleOS.Arch.PageTable
import CapsuleOS.Lib.Runs
import CapsuleOS.Memory.PhysRun
import CapsuleOS.Memory.Slab

/-!
# Runs of the kernel heap

Allocations and deallocations by owners that give back what they were given, between which they write
to their blocks, while the rest of the kernel takes and frees pages and writes elsewhere. `Laid`
relates memory to the free lists and the blocks in use; the lists pass free blocks only, so the links
are never stored where an owner could overwrite them.
-/
namespace CapsuleOS

open Lib

/-- A block in use, with the layout it was allocated for. -/
structure Block where
  ptr : Nat
  size : Nat
  align : Nat
  deriving DecidableEq

namespace Block

def ci (b : Block) : Nat := (classIndex b.size b.align).getD 0

/-- The bytes from `ptr` on that belong to the block. -/
def extent (b : Block) : Nat := blockSize b.ci

end Block

/-- The heap and the blocks in use. -/
structure Heap where
  slab : Slab
  live : List Block

inductive HeapOp where
  | alloc (size align : Nat)
  | dealloc (b : Block)
  | write (b : Block) (off : Nat) (bytes : List UInt8)
  | elsewhere (a : Nat) (bytes : List UInt8)
  | takePage (tag : PageTag)
  | freePage (pa : Nat)

namespace Heap

def onSlab {α : Type} (m : SlabM α) : Prog Heap Status α := Prog.zoom slab (fun slab h => { h with slab }) m

def setMem (h : Heap) (mem : Mem) : Heap := { h with slab := h.slab.setMem mem }

def mem (h : Heap) : Mem := h.slab.mm.mem

/-- A block that was returned is in use. -/
def addLive (size align ptr : Nat) (h : Heap) : Heap :=
  if ptr = 0 then h else { h with live := ⟨ptr, size, align⟩ :: h.live }

def start (mm : Mm) : Heap := ⟨⟨mm, fun _ => 0, []⟩, []⟩

end Heap

def heapCalls : Stepper Heap Status HeapOp where
  exec
    | .alloc size align => Heap.onSlab (Slab.allocate size align) >>= fun ptr =>
        Prog.modify (Heap.addLive size align ptr)
    | .dealloc b => Heap.onSlab (Slab.deallocate b.ptr b.size b.align) >>= fun _ =>
        Prog.modify fun h => { h with live := h.live.erase b }
    | .write b off bytes => Prog.modify fun h => h.setMem (h.mem.store (b.ptr + off) bytes)
    | .elsewhere a bytes => Prog.modify fun h => h.setMem (h.mem.store a bytes)
    | .takePage tag => Heap.onSlab (Slab.onMm (allocPage tag)) >>= fun _ => pure ()
    | .freePage pa => Heap.onSlab (Slab.onMm (freePage pa))
  Enabled h
    | .dealloc b => b ∈ h.live
    | .write b off bytes => b ∈ h.live ∧ off + bytes.length ≤ b.size
    | .elsewhere a bytes => ∀ p ∈ h.slab.pages, a + bytes.length ≤ p.1 ∨ p.1 + pageSize ≤ a
    | _ => True

/-! ## The invariant -/

namespace Slab

/-- The free lists pass the free blocks, and every block is free or in use. -/
structure Laid (s : Slab) (live : List Block) (free : Nat → List Nat) : Prop where
  wf : s.mm.WF
  pages : Pages s.mm s.pages
  chain : ∀ ci, FreeList s.mm.mem (s.heads ci) (free ci)
  free_block : ∀ ci, ∀ a ∈ free ci, IsBlock s.pages ci a
  free_nodup : ∀ ci, (free ci).Nodup
  live_class : ∀ b ∈ live, classIndex b.size b.align = some b.ci
  live_block : ∀ b ∈ live, IsBlock s.pages b.ci b.ptr
  live_nodup : (live.map (·.ptr)).Nodup
  apart : ∀ ci, ∀ a ∈ free ci, ∀ b ∈ live, b.ptr ≠ a

/-- The blocks in use hold what they held. -/
def Spares (live : List Block) (s s' : Slab) : Prop :=
  ∀ b ∈ live, Mem.SameOn s.mm.mem s'.mm.mem b.ptr b.extent

variable {s s' : Slab} {live : List Block} {free : Nat → List Nat} {mm : Mm} {mem : Mem}
  {ci a : Nat} {b c : Block}

/-- The blocks in use are laid out, and hold what they held. -/
def Kept (s : Slab) (live : List Block) (s' : Slab) : Prop := (∃ free, Laid s' live free) ∧ Spares live s s'

theorem Spares.refl (live : List Block) (s : Slab) : Spares live s s := fun _ _ => .refl _ _ _

theorem Spares.trans {s'' : Slab} (h : Spares live s s') (h' : Spares live s' s'') : Spares live s s'' :=
  fun b mem => (h b mem).trans (h' b mem)

theorem laid_start (wf : mm.WF) : Laid ⟨mm, fun _ => 0, []⟩ [] fun _ => [] where
  wf := wf
  pages := by constructor <;> simp
  chain _ := freeList_nil
  free_block _ _ mem := by cases mem
  free_nodup _ := List.nodup_nil
  live_class _ mem := by cases mem
  live_block _ mem := by cases mem
  live_nodup := List.nodup_nil
  apart _ _ mem := by cases mem

theorem IsBlock.class_lt (pages : Pages mm s.pages) (h : IsBlock s.pages ci a) : ci < 7 := by
  obtain ⟨page, i, mem, _⟩ := h
  exact pages.class_lt _ mem

/-- A block lies in a page of the heap. -/
theorem IsBlock.inside (pages : Pages mm s.pages) (h : IsBlock s.pages ci a) :
    ∃ page, (page, ci) ∈ s.pages ∧ page + pageHeader ≤ a ∧ a + blockSize ci ≤ page + pageSize := by
  obtain ⟨page, i, mem, lt, rfl⟩ := h
  exact ⟨page, mem, block_in_page page (pages.class_lt _ mem) lt⟩

theorem IsBlock.mono {pages pages' : List (Nat × Nat)} (h : IsBlock pages ci a) (sub : pages ⊆ pages') :
    IsBlock pages' ci a := by
  obtain ⟨page, i, mem, rest⟩ := h
  exact ⟨page, i, sub mem, rest⟩

/-- Memory that keeps the pages of the heap keeps its blocks. -/
theorem IsBlock.sameOn (pages : Pages mm s.pages) (h : IsBlock s.pages ci a)
    (same : ∀ p ∈ s.pages, Mem.SameOn mem mm.mem p.1 pageSize) :
    Mem.SameOn mem mm.mem a (blockSize ci) := by
  obtain ⟨page, here, ge, le⟩ := h.inside pages
  exact (same _ here).mono (by omega) (by omega)

namespace Laid

theorem free_big (h : Laid s live free) (mem : a ∈ free ci) : 8 ≤ blockSize ci :=
  (class_bounds ((h.free_block ci a mem).class_lt h.pages)).1

theorem free_live (h : Laid s live free) (mem : a ∈ free ci) (used : b ∈ live) :
    Disjoint ci a b.ci b.ptr :=
  h.pages.disjoint (h.free_block ci a mem) (h.live_block b used) (h.apart ci a mem b used).symm

theorem live_disjoint (h : Laid s live free) (hb : b ∈ live) (hc : c ∈ live) (ne : b ≠ c) :
    Disjoint b.ci b.ptr c.ci c.ptr := by
  refine h.pages.disjoint (h.live_block b hb) (h.live_block c hc) fun same => ne ?_
  exact List.inj_on_of_nodup_map h.live_nodup hb hc same

/-- The memory manager has moved on, and the links are as they were. -/
theorem setMm (h : Laid s live free) (wf : mm.WF) (spent : ∀ q, s.mm.Spent q → mm.Spent q)
    (same : ∀ ci, ∀ a ∈ free ci, Mem.SameOn s.mm.mem mm.mem a 8) : Laid { s with mm } live free where
  wf := wf
  pages := { h.pages with spent := fun p mem => spent _ (h.pages.spent p mem) }
  chain ci := (h.chain ci).congr (same ci)
  free_block := h.free_block
  free_nodup := h.free_nodup
  live_class := h.live_class
  live_block := h.live_block
  live_nodup := h.live_nodup
  apart := h.apart

theorem setMem (h : Laid s live free) (same : ∀ ci, ∀ a ∈ free ci, Mem.SameOn s.mm.mem mem a 8) :
    Laid (s.setMem mem) live free :=
  h.setMm (h.wf.setMem mem) (fun _ spent => spent) same

/-- The memory manager has moved on and left the pages of the heap alone. -/
theorem outside (h : Laid s live free) (wf : mm.WF) (spent : ∀ q, s.mm.Spent q → mm.Spent q)
    (same : ∀ p ∈ s.pages, Mem.SameOn s.mm.mem mm.mem p.1 pageSize) :
    Laid { s with mm } live free ∧ Spares live s { s with mm } := by
  have pages : Pages mm s.pages :=
    { h.pages with spent := fun p mem => spent _ (h.pages.spent p mem) }
  refine ⟨h.setMm wf spent fun ci a mem => ?_, fun b used => (h.live_block b used).sameOn pages same⟩
  exact ((h.free_block ci a mem).sameOn pages same).mono le_rfl (by have := h.free_big mem; omega)

/-- Another page is handed out: none of the heap. -/
theorem claim (h : Laid s live free) {pa : Nat} (cand : s.mm.Candidate pa) (tag : PageTag) :
    Laid { s with mm := s.mm.claim tag pa } live free ∧
      Spares live s { s with mm := s.mm.claim tag pa } := by
  refine h.outside (h.wf.claim cand) (fun _ spent => spent.claim tag cand) fun p mem => ?_
  have al_p := h.pages.aligned p mem
  have al_pa := cand.aligned h.wf
  have ne := cand.not_spent (h.pages.spent p mem)
  refine Mem.clear_sameOn ?_
  unfold pageSize at *
  omega

theorem skipTo (h : Laid s live free) {n : Nat} (ge : s.mm.nextFreePage ≤ n)
    (grid : 4096 ∣ n - s.mm.nextFreePage) : Laid { s with mm := s.mm.skipTo n } live free ∧
      Spares live s { s with mm := s.mm.skipTo n } :=
  h.outside (h.wf.skipTo ge grid) (fun _ spent => spent.skipTo ge) fun _ _ => .refl _ _ _

/-- One list has been replaced; the other ones are as they were. -/
theorem relist (h : Laid s live free) (wf : mm.WF) {pages : List (Nat × Nat)} (laid : Pages mm pages)
    (sub : s.pages ⊆ pages) (others : ∀ cj, cj ≠ ci → ∀ a ∈ free cj, Mem.SameOn s.mm.mem mm.mem a 8)
    {head : Nat} {xs : List Nat} (chain : FreeList mm.mem head xs)
    (block : ∀ a ∈ xs, IsBlock pages ci a) (nodup : xs.Nodup)
    (apart : ∀ a ∈ xs, ∀ b ∈ live, b.ptr ≠ a) :
    Laid { s.setHead ci head with mm, pages } live (Function.update free ci xs) := by
  refine ⟨wf, laid, fun cj => ?_, fun cj => ?_, fun cj => ?_, h.live_class,
    fun b used => (h.live_block b used).mono sub, h.live_nodup, fun cj => ?_⟩
  all_goals by_cases same : cj = ci
  · subst same
    rw [Function.update_self]
    exact (setHead_self s cj head).symm ▸ chain
  · rw [Function.update_of_ne same]
    exact (setHead_ne s same head).symm ▸ (h.chain cj).congr (others cj same)
  · subst same
    rw [Function.update_self]
    exact block
  · rw [Function.update_of_ne same]
    exact fun a mem => (h.free_block cj a mem).mono sub
  · subst same
    rw [Function.update_self]
    exact nodup
  · rw [Function.update_of_ne same]
    exact h.free_nodup cj
  · subst same
    rw [Function.update_self]
    exact apart
  · rw [Function.update_of_ne same]
    exact h.apart cj

/-- A block that is on no list is put to use. -/
theorem use (h : Laid s live free) {size align : Nat} (at_class : classIndex size align = some ci)
    (block : IsBlock s.pages ci a) (unlisted : ∀ cj, a ∉ free cj) (unused : ∀ b ∈ live, b.ptr ≠ a) :
    Laid s (⟨a, size, align⟩ :: live) free := by
  have class_eq : (⟨a, size, align⟩ : Block).ci = ci := by simp [Block.ci, at_class]
  refine ⟨h.wf, h.pages, h.chain, h.free_block, h.free_nodup, fun b mem => ?_, fun b mem => ?_, ?_,
    fun cj x mem b used => ?_⟩
  · rcases List.mem_cons.mp mem with rfl | old
    · rw [class_eq]
      exact at_class
    · exact h.live_class b old
  · rcases List.mem_cons.mp mem with rfl | old
    · rw [class_eq]
      exact block
    · exact h.live_block b old
  · rw [List.map_cons, List.nodup_cons]
    refine ⟨fun mem => ?_, h.live_nodup⟩
    obtain ⟨b, used, same⟩ := List.mem_map.mp mem
    exact unused b used same
  · rcases List.mem_cons.mp used with rfl | old
    · rintro rfl
      exact unlisted cj mem
    · exact h.apart cj x mem b old

/-- A block is given back, and is on no list yet. -/
theorem drop (h : Laid s live free) (b : Block) : Laid s (live.erase b) free where
  wf := h.wf
  pages := h.pages
  chain := h.chain
  free_block := h.free_block
  free_nodup := h.free_nodup
  live_class c mem := h.live_class c (List.mem_of_mem_erase mem)
  live_block c mem := h.live_block c (List.mem_of_mem_erase mem)
  live_nodup := h.live_nodup.sublist (List.erase_sublist.map _)
  apart ci a mem c used := h.apart ci a mem c (List.mem_of_mem_erase used)

/-- The first block of a list is put to use. -/
theorem pop (h : Laid s live free) {size align : Nat} (at_class : classIndex size align = some ci)
    (some_head : s.heads ci ≠ 0) : ∃ free', Laid (s.setHead ci (s.mm.mem.load64 (s.heads ci)))
      (⟨s.heads ci, size, align⟩ :: live) free' := by
  obtain ⟨ys, eq, rest⟩ := (h.chain ci).uncons some_head
  have here : s.heads ci ∈ free ci := by
    rw [eq]
    exact List.mem_cons_self
  have later : ∀ x ∈ ys, x ∈ free ci := fun x mem => by
    rw [eq]
    exact List.mem_cons_of_mem _ mem
  have nodup := h.free_nodup ci
  rw [eq, List.nodup_cons] at nodup
  have block := h.free_block ci _ here
  have laid := h.relist h.wf h.pages (List.Subset.refl _) (fun _ _ _ _ => .refl _ _ _) rest
    (fun x mem => h.free_block ci x (later x mem)) nodup.2 fun x mem => h.apart ci x (later x mem)
  refine ⟨_, laid.use at_class block (fun cj mem => ?_) (h.apart ci _ here)⟩
  -- the block has left its list, and is on no other
  by_cases same : cj = ci
  · subst same
    rw [Function.update_self] at mem
    exact nodup.1 mem
  · rw [Function.update_of_ne same] at mem
    exact same (h.pages.class_unique (h.free_block cj _ mem) block)

/-- A block that was in use becomes the first of its list. -/
theorem push (h : Laid s live free) (used : b ∈ live) :
    ∃ free', Laid ((s.setMem (s.mm.mem.store64 b.ptr (s.heads b.ci))).setHead b.ci b.ptr) (live.erase b)
      free' := by
  have block := h.live_block b used
  have class_lt := block.class_lt h.pages
  obtain ⟨page, mem_page, ge, le⟩ := block.inside h.pages
  have ram := h.pages.ge_ram _ mem_page
  have big := (class_bounds class_lt).1
  have away : ∀ cj, ∀ x ∈ free cj, x + 8 ≤ b.ptr ∨ b.ptr + 8 ≤ x := by
    intro cj x mem
    have big' := h.free_big mem
    have apart := h.free_live mem used
    unfold Disjoint at apart
    omega
  have head_lt : s.heads b.ci < 2 ^ 64 := by
    rcases (h.chain b.ci).head_mem with zero | mem
    · omega
    · obtain ⟨page', mem_page', ge', le'⟩ := (h.free_block _ _ mem).inside h.pages
      have lt := h.pages.lt_ram _ mem_page'
      unfold ramBase ramSize pageSize at *
      omega
  have pos : b.ptr ≠ 0 := by
    simp only [ramBase] at ram
    omega
  have chain := (h.chain b.ci).push pos head_lt (away b.ci)
  have others : ∀ cj, cj ≠ b.ci → ∀ x ∈ free cj, Mem.SameOn s.mm.mem
      (s.mm.mem.store64 b.ptr (s.heads b.ci)) x 8 :=
    fun cj _ x mem => Mem.store64_sameOn (away cj x mem)
  generalize s.mm.mem.store64 b.ptr (s.heads b.ci) = mem at chain others
  have pages : Pages (s.mm.setMem mem) s.pages := { h.pages with spent := h.pages.spent }
  refine ⟨_, (h.drop b).relist (h.wf.setMem mem) pages (List.Subset.refl _) others chain
    (fun x mem => ?_) ?_ fun x mem c kept => ?_⟩
  · rcases List.mem_cons.mp mem with rfl | old
    · exact block
    · exact h.free_block _ x old
  · exact List.nodup_cons.mpr ⟨fun mem => h.apart _ _ mem b used rfl, h.free_nodup b.ci⟩
  · have other : c ≠ b := by
      rintro rfl
      exact (List.Nodup.of_map _ h.live_nodup).not_mem_erase kept
    have in_use := List.mem_of_mem_erase kept
    rcases List.mem_cons.mp mem with rfl | old
    · exact fun same => other (List.inj_on_of_nodup_map h.live_nodup in_use used same)
    · exact h.apart _ x old c in_use

/-- A new page is none of those the heap has. -/
theorem newPage (h : Laid s live free) {pa : Nat} (cand : s.mm.Candidate pa) (class_lt : ci < 7)
    (tag : PageTag) : Pages (s.mm.claim tag pa) ((pa, ci) :: s.pages) := by
  have old := h.pages
  refine ⟨?_, ?_, ?_, ?_, ?_, ?_⟩
  · rw [List.map_cons, List.nodup_cons]
    refine ⟨fun mem => ?_, old.nodup⟩
    obtain ⟨p, here, same⟩ := List.mem_map.mp mem
    exact cand.not_spent (old.spent p here) same
  · exact List.forall_mem_cons.mpr ⟨class_lt, old.class_lt⟩
  · exact List.forall_mem_cons.mpr ⟨cand.aligned h.wf, old.aligned⟩
  · exact List.forall_mem_cons.mpr ⟨cand.ge_ram, old.ge_ram⟩
  · exact List.forall_mem_cons.mpr ⟨cand.lt_ram, old.lt_ram⟩
  · exact List.forall_mem_cons.mpr
      ⟨s.mm.spent_claim_self tag pa, fun p mem => (old.spent p mem).claim tag cand⟩

/-- A block of an old page does not meet a new one. -/
theorem old_block (h : Laid s live free) {pa : Nat} (cand : s.mm.Candidate pa)
    (block : IsBlock s.pages ci a) : a + blockSize ci ≤ pa ∨ pa + pageSize ≤ a := by
  obtain ⟨page, mem, ge, le⟩ := block.inside h.pages
  have al : pageSize ∣ page := h.pages.aligned _ mem
  have al' := cand.aligned h.wf
  have ne : page ≠ pa := cand.not_spent (h.pages.spent _ mem)
  unfold pageSize at *
  omega

theorem refill (h : Laid s live free) (class_lt : ci < 7) (empty : s.heads ci = 0) :
    Prog.Post (refill ci) s (fun _ s' => Kept s live s') (Kept s live) := by
  obtain ⟨big, some_block, fits⟩ := class_bounds class_lt
  have taken : Prog.Post (onMm allocKheapPage) s
      (fun pa s' => s.mm.Candidate pa ∧ s' = { s with mm := s.mm.claim .kernelHeap pa })
      (fun s' => ∃ n, s.mm.nextFreePage ≤ n ∧ 4096 ∣ n - s.mm.nextFreePage ∧
        s' = { s with mm := s.mm.skipTo n }) := by
    refine (allocPage_post h.wf .kernelHeap).zoom ?_ ?_
    · rintro pa mm ⟨cand, rfl⟩
      exact ⟨cand, rfl⟩
    · rintro mm ⟨n, ge, grid, rfl⟩
      exact ⟨n, ge, grid, rfl⟩
  rw [Slab.refill, if_neg (by omega)]
  refine Prog.Post.attempt_bind taken ?_ ?_ ?_
  · rintro pa s₁ ⟨cand, rfl⟩
    have free_nil : free ci = [] := FreeList.eq_nil (empty ▸ h.chain ci)
    obtain ⟨laid, spared⟩ := h.claim cand .kernelHeap
    have low : pa + pageSize < 2 ^ 64 := by
      have := cand.lt_ram
      unfold ramBase ramSize at this
      unfold pageSize
      omega
    have pos : pa ≠ 0 := by
      have := cand.ge_ram
      unfold ramBase at this
      omega
    have pages := h.newPage cand class_lt .kernelHeap
    have fresh : ∀ {cj x : Nat}, IsBlock s.pages cj x → x + blockSize cj ≤ pa ∨ pa + pageSize ≤ x :=
      fun block => h.old_block cand block
    refine Prog.Post.modify_bind (Prog.Post.modify ?_)
    generalize s.mm.claim .kernelHeap pa = mm at laid spared pages
    change Kept s live { s.setHead ci (blockAt pa ci 0) with
      mm := mm.setMem (buildPage pa ci (s.heads ci) mm.mem)
      pages := (pa, ci) :: s.pages }
    have built : FreeList (buildPage pa ci (s.heads ci) mm.mem) (blockAt pa ci 0) _ :=
      buildPage_freeList class_lt low pos (s.heads ci)
    have others : ∀ {x n : Nat}, x + n ≤ pa ∨ pa + pageSize ≤ x →
        Mem.SameOn mm.mem (buildPage pa ci (s.heads ci) mm.mem) x n :=
      fun away => buildPage_sameOn class_lt away
    generalize buildPage pa ci (s.heads ci) mm.mem = mem at built others
    have pages' : Pages (mm.setMem mem) ((pa, ci) :: s.pages) := { pages with spent := pages.spent }
    refine ⟨⟨_, laid.relist (laid.wf.setMem mem) pages' (List.subset_cons_self _ _)
      (fun cj _ x here => others ?_) built (fun x here => ?_) ?_ fun x here b used => ?_⟩,
      fun b used => (spared b used).trans (others (fresh (h.live_block b used)))⟩
    · have away := fresh (h.free_block cj x here)
      have := h.free_big here
      omega
    · obtain ⟨i, lt, rfl⟩ := List.mem_map.mp here
      exact ⟨pa, i, List.mem_cons_self, List.mem_range.mp lt, rfl⟩
    · refine List.nodup_range.map fun i j same => ?_
      have positive : 0 < blockSize ci := by omega
      have eq : i * blockSize ci = j * blockSize ci := by
        unfold blockAt at same
        omega
      exact Nat.eq_of_mul_eq_mul_right positive eq
    · obtain ⟨i, lt, rfl⟩ := List.mem_map.mp here
      have inside := block_in_page pa class_lt (List.mem_range.mp lt)
      have away := fresh (h.live_block b used)
      have := (class_bounds ((h.live_block b used).class_lt h.pages)).1
      unfold pageHeader at inside
      omega
  · rintro e s₁ ⟨n, ge, grid, rfl⟩
    obtain ⟨laid, spared⟩ := h.skipTo ge grid
    exact .pure ⟨⟨free, laid⟩, spared⟩
  · rintro s₁ ⟨n, ge, grid, rfl⟩
    obtain ⟨laid, spared⟩ := h.skipTo ge grid
    exact ⟨⟨free, laid⟩, spared⟩

/-- The blocks in use after an allocation that returned `ptr`. -/
def withBlock (live : List Block) (size align ptr : Nat) : List Block :=
  if ptr = 0 then live else ⟨ptr, size, align⟩ :: live

theorem pop_post (h : Laid s live free) {size align : Nat} (at_class : classIndex size align = some ci) :
    Prog.Post (Slab.pop ci) s (fun ptr s' =>
      (∃ free', Laid s' (withBlock live size align ptr) free') ∧ Spares live s s') (Kept s live) := by
  by_cases none_left : s.heads ci = 0
  · refine .of_ok ⟨0, s, by rw [Slab.pop, if_pos none_left], ?_, .refl live s⟩
    exact ⟨free, by rwa [withBlock, if_pos rfl]⟩
  · refine .of_ok ⟨s.heads ci, s.setHead ci (s.mm.mem.load64 (s.heads ci)),
      by rw [Slab.pop, if_neg none_left], ?_, .refl live s⟩
    rw [withBlock, if_neg none_left]
    exact h.pop at_class none_left

/-- What an allocation returns is a block that was free, or null. -/
theorem allocate (h : Laid s live free) (size align : Nat) :
    Prog.Post (allocate size align) s (fun ptr s' =>
      (∃ free', Laid s' (withBlock live size align ptr) free') ∧ Spares live s s') (Kept s live) := by
  have same : ∃ free', Laid s (withBlock live size align 0) free' := ⟨free, by rwa [withBlock, if_pos rfl]⟩
  unfold Slab.allocate
  split_ifs with large
  · exact .pure ⟨same, .refl live s⟩
  · split
    · exact .pure ⟨same, .refl live s⟩
    · rename_i ci at_class
      refine Prog.Post.get_bind ?_
      split_ifs with empty
      · refine (h.refill (classIndex_lt at_class) empty).bind ?_
        rintro _ s' ⟨⟨free', laid⟩, spared⟩
        exact (laid.pop_post at_class).mono (fun _ _ r => ⟨r.1, spared.trans r.2⟩)
          fun _ r => ⟨r.1, spared.trans r.2⟩
      · exact h.pop_post at_class

/-- A block that is given back is free, and the other ones are left alone. -/
theorem deallocate (h : Laid s live free) (used : b ∈ live) :
    Prog.Post (deallocate b.ptr b.size b.align) s
      (fun _ s' => Kept s (live.erase b) s') (Kept s live) := by
  rw [Slab.deallocate, h.live_class b used]
  refine Prog.Post.modify ⟨h.push used, fun c kept => ?_⟩
  have in_use := List.mem_of_mem_erase kept
  have other : b ≠ c := by
    rintro rfl
    exact (List.Nodup.of_map _ h.live_nodup).not_mem_erase kept
  have apart := h.live_disjoint used in_use other
  have big := (class_bounds ((h.live_block b used).class_lt h.pages)).1
  refine Mem.store64_sameOn ?_
  unfold Disjoint Block.extent at *
  omega

end Laid

end Slab

/-! ## Steps and runs -/

namespace Heap

open Slab

def Good (h : Heap) : Prop := ∃ free, Laid h.slab h.live free

/-- What the heap promises: the blocks in use are apart, each inside one page behind its header, and
the free lists store no link in any of them. -/
structure Sound (h : Heap) : Prop where
  once : h.live.Nodup
  disjoint : ∀ b ∈ h.live, ∀ c ∈ h.live, b ≠ c → b.ptr + b.extent ≤ c.ptr ∨ c.ptr + c.extent ≤ b.ptr
  inside : ∀ b ∈ h.live, b.size ≤ b.extent ∧ ∃ page, (page, b.ci) ∈ h.slab.pages ∧
    page + pageHeader ≤ b.ptr ∧ b.ptr + b.extent ≤ page + pageSize
  pages : (h.slab.pages.map (·.1)).Nodup ∧ ∀ p ∈ h.slab.pages, pageSize ∣ p.1
  links : ∃ free : Nat → List Nat, ∀ ci, FreeList h.mem (h.slab.heads ci) (free ci) ∧
    ∀ a ∈ free ci, ∀ b ∈ h.live, a + 8 ≤ b.ptr ∨ b.ptr + b.extent ≤ a

/-- A call leaves alone every block that is in use before and after it and that its owner does not
write to. -/
def Spares (op : HeapOp) (h h' : Heap) : Prop :=
  ∀ b ∈ h.live, b ∈ h'.live → (∀ off bytes, op ≠ .write b off bytes) →
    Mem.SameOn h.mem h'.mem b.ptr b.extent

variable {h h' : Heap}

theorem Good.sound (good : h.Good) : h.Sound := by
  obtain ⟨free, laid⟩ := good
  refine ⟨.of_map _ laid.live_nodup, fun b hb c hc ne => laid.live_disjoint hb hc ne, fun b used => ?_,
    ⟨laid.pages.nodup, laid.pages.aligned⟩, free, fun ci => ⟨laid.chain ci, fun a mem b used => ?_⟩⟩
  · exact ⟨le_blockSize (laid.live_class b used), (laid.live_block b used).inside laid.pages⟩
  · have apart := laid.free_live mem used
    have big := laid.free_big mem
    unfold Slab.Disjoint Block.extent at *
    omega

theorem onSlab_post {α : Type} {m : SlabM α} {Q : α → Slab → Prop} {E : Slab → Prop}
    (ran : Prog.Post m h.slab Q E) : Prog.Post (onSlab m) h
      (fun x h' => Q x h'.slab ∧ h'.live = h.live) (fun h' => E h'.slab ∧ h'.live = h.live) :=
  ran.zoom (fun _ _ holds => ⟨holds, rfl⟩) fun _ holds => ⟨holds, rfl⟩

/-- The heap is laid out as before, with the same blocks in use. -/
theorem of_kept {op : HeapOp} (kept : Kept h.slab h.live h'.slab ∧ h'.live = h.live) :
    h'.Good ∧ Spares op h h' := by
  obtain ⟨⟨laid, spared⟩, live⟩ := kept
  exact ⟨by rwa [Good, live], fun b used _ _ => spared b used⟩

theorem alloc_post (good : h.Good) (size align : Nat) :
    Prog.Post (heapCalls.exec (.alloc size align)) h
      (fun _ h' => h'.Good ∧ Spares (.alloc size align) h h')
      (fun h' => h'.Good ∧ Spares (.alloc size align) h h') := by
  obtain ⟨free, laid⟩ := good
  refine Prog.Post.bind ((onSlab_post (laid.allocate size align)).mono (fun _ _ r => r)
    fun _ kept => of_kept kept) fun ptr h₁ r => Prog.Post.modify ?_
  obtain ⟨⟨⟨free', laid'⟩, spared⟩, live⟩ := r
  have in_use : (addLive size align ptr h₁).live = Laid.withBlock h.live size align ptr := by
    unfold addLive Laid.withBlock
    split_ifs <;> simp [live]
  have slab : (addLive size align ptr h₁).slab = h₁.slab := by
    unfold addLive
    split_ifs <;> rfl
  refine ⟨⟨free', ?_⟩, fun b used _ _ => ?_⟩
  · rwa [slab, in_use]
  · rw [mem, mem, slab]
    exact spared b used

theorem dealloc_post (good : h.Good) {b : Block} (used : b ∈ h.live) :
    Prog.Post (heapCalls.exec (.dealloc b)) h (fun _ h' => h'.Good ∧ Spares (.dealloc b) h h')
      (fun h' => h'.Good ∧ Spares (.dealloc b) h h') := by
  obtain ⟨free, laid⟩ := good
  refine Prog.Post.bind ((onSlab_post (laid.deallocate used)).mono (fun _ _ r => r)
    fun _ kept => of_kept kept) fun _ h₁ r => Prog.Post.modify ?_
  obtain ⟨⟨⟨free', laid'⟩, spared⟩, live⟩ := r
  refine ⟨⟨free', ?_⟩, fun c _ still _ => ?_⟩
  · rwa [live]
  · rw [live] at still
    exact spared c still

/-- Owners write to their blocks only. -/
theorem write_post (good : h.Good) {b : Block} {off : Nat} {bytes : List UInt8} (used : b ∈ h.live)
    (fits : off + bytes.length ≤ b.size) :
    Prog.Post (heapCalls.exec (.write b off bytes)) h
      (fun _ h' => h'.Good ∧ Spares (.write b off bytes) h h')
      (fun h' => h'.Good ∧ Spares (.write b off bytes) h h') := by
  obtain ⟨free, laid⟩ := good
  have le := le_blockSize (laid.live_class b used)
  refine Prog.Post.modify ⟨⟨free, laid.setMem fun ci a mem => Mem.store_sameOn ?_⟩, fun c in_use _ other => ?_⟩
  · have apart := laid.free_live mem used
    have big := laid.free_big mem
    unfold Slab.Disjoint at apart
    omega
  · have ne : b ≠ c := by
      rintro rfl
      exact other off bytes rfl
    have apart := laid.live_disjoint used in_use ne
    refine Mem.store_sameOn ?_
    unfold Slab.Disjoint Block.extent at *
    omega

/-- What the rest of the kernel writes lies outside of the heap. -/
theorem elsewhere_post (good : h.Good) {a : Nat} {bytes : List UInt8}
    (away : ∀ p ∈ h.slab.pages, a + bytes.length ≤ p.1 ∨ p.1 + pageSize ≤ a) :
    Prog.Post (heapCalls.exec (.elsewhere a bytes)) h
      (fun _ h' => h'.Good ∧ Spares (.elsewhere a bytes) h h')
      (fun h' => h'.Good ∧ Spares (.elsewhere a bytes) h h') := by
  obtain ⟨free, laid⟩ := good
  have same : ∀ p ∈ h.slab.pages, Mem.SameOn h.mem (h.mem.store a bytes) p.1 pageSize :=
    fun p mem => Mem.store_sameOn (away p mem).symm
  have kept := laid.outside (laid.wf.setMem (h.mem.store a bytes)) (fun _ spent => spent) same
  exact Prog.Post.modify (of_kept ⟨⟨⟨free, kept.1⟩, kept.2⟩, rfl⟩)

theorem takePage_post (good : h.Good) (tag : PageTag) :
    Prog.Post (heapCalls.exec (.takePage tag)) h (fun _ h' => h'.Good ∧ Spares (.takePage tag) h h')
      (fun h' => h'.Good ∧ Spares (.takePage tag) h h') := by
  obtain ⟨free, laid⟩ := good
  have taken : Prog.Post (Slab.onMm (allocPage tag)) h.slab (fun _ s' => Kept h.slab h.live s')
      (Kept h.slab h.live) := by
    refine (allocPage_post laid.wf tag).zoom ?_ ?_
    · rintro pa mm ⟨cand, rfl⟩
      exact (laid.claim cand tag).imp_left fun laid' => ⟨free, laid'⟩
    · rintro mm ⟨n, ge, grid, rfl⟩
      exact (laid.skipTo ge grid).imp_left fun laid' => ⟨free, laid'⟩
  refine Prog.Post.bind ((onSlab_post taken).mono (fun _ _ r => r) fun _ kept => of_kept kept)
    fun _ h₁ kept => .pure (of_kept kept)

theorem freePage_post (good : h.Good) (pa : Nat) :
    Prog.Post (heapCalls.exec (.freePage pa)) h (fun _ h' => h'.Good ∧ Spares (.freePage pa) h h')
      (fun h' => h'.Good ∧ Spares (.freePage pa) h h') := by
  obtain ⟨free, laid⟩ := good
  have still : ∀ mm, h.slab.mm.Still mm → Kept h.slab h.live { h.slab with mm } := by
    intro mm still
    refine (laid.outside (still.wf laid.wf) (fun _ spent => still.spent.mpr spent) fun p _ => ?_).imp_left
      fun laid' => ⟨free, laid'⟩
    rw [still.mem_eq]
    exact .refl _ _ _
  have freed : Prog.Post (Slab.onMm (CapsuleOS.freePage pa)) h.slab (fun _ s' => Kept h.slab h.live s')
      (Kept h.slab h.live) :=
    (Prog.Post.of_within (Mm.freePage_still pa)).zoom (fun _ mm => still mm) still
  exact (onSlab_post freed).mono (fun _ _ kept => of_kept kept) fun _ kept => of_kept kept

theorem Good.step (good : h.Good) {op : HeapOp} (step : heapCalls.Steps op h h') :
    h'.Good ∧ Spares op h h' := by
  have enabled := step.enabled
  have post : Prog.Post (heapCalls.exec op) h (fun _ h' => h'.Good ∧ Spares op h h')
      (fun h' => h'.Good ∧ Spares op h h') := by
    cases op with
    | alloc size align => exact alloc_post good size align
    | dealloc b => exact dealloc_post good enabled
    | write b off bytes => exact write_post good enabled.1 enabled.2
    | elsewhere a bytes => exact elsewhere_post good enabled
    | takePage tag => exact takePage_post good tag
    | freePage pa => exact freePage_post good pa
  rcases post.ends step.ran with ⟨_, kept⟩ | kept
  · exact kept
  · exact kept

end Heap

/-- After every run of the heap the blocks in use have no byte in common, each lies in one page of the
heap behind its header, and no free list stores a link in one of them; and no call touches a block
that is in use before and after it, but for the owner who writes to it. -/
theorem slab_blocks_apart {b : BootInfo} {mem : Mem} {mm₀ : Mm} {h : Heap}
    (init : Mm.init b mem = some mm₀) (run : heapCalls.Run (fun _ _ => True) (.start mm₀) h) :
    h.Sound ∧ ∀ op h', heapCalls.Steps op h h' → Heap.Spares op h h' := by
  have good : h.Good := run.invariant ⟨_, Slab.laid_start (init_booted init).wf⟩
    fun op h h' good _ step => (good.step step).1
  exact ⟨good.sound, fun op h' step => (good.step step).2⟩

/-- The first allocation after boot. -/
theorem boot_allocate (size align ci : Nat) (small : align ≤ 64) (class_ : classIndex size align = some ci) :
    ∃ mm₀ s', Mm.init BootInfo.virt (fun _ => 0) = some mm₀ ∧
      Slab.allocate size align (Heap.start mm₀).slab =
        .ok (Slab.blockAt BootInfo.virt.firstFree ci 0) s' := by
  obtain ⟨mm₀, init, fresh⟩ := init_leaves BootInfo.virt_serves.toLeaves fun _ => 0
  have taken := fresh.ready.alloc BootInfo.virt_serves.some_free (by decide) (by decide) .kernelHeap
  exact ⟨mm₀, _, init, Slab.allocate_first small class_ rfl taken⟩

/-- The first two allocations after boot get the first two blocks of one page. -/
theorem boot_allocate_two : ∃ mm₀ s₁ s₂, Mm.init BootInfo.virt (fun _ => 0) = some mm₀ ∧
    Slab.allocate 100 8 (Heap.start mm₀).slab = .ok (Slab.blockAt BootInfo.virt.firstFree 2 0) s₁ ∧
    Slab.allocate 100 8 s₁ = .ok (Slab.blockAt BootInfo.virt.firstFree 2 1) s₂ := by
  obtain ⟨mm₀, init, fresh⟩ := init_leaves BootInfo.virt_serves.toLeaves fun _ => 0
  have taken := fresh.ready.alloc BootInfo.virt_serves.some_free (by decide) (by decide) .kernelHeap
  have low : BootInfo.virt.firstFree + pageSize < 2 ^ 64 := by decide
  have more : 1 < blocksPerPage (blockSize 2) := by decide
  obtain ⟨s₁, s₂, first, second⟩ :=
    @Slab.allocate_two 2 (Heap.start mm₀).slab 100 8 _ (by decide) (by decide) rfl _ taken low more
  exact ⟨mm₀, s₁, s₂, init, first, second⟩

/-- Right after boot 100 bytes are allocated twice; the first block is given back and handed out again. -/
theorem slab_blocks_apart_boot : ∃ mm₀ h, Mm.init BootInfo.virt (fun _ => 0) = some mm₀ ∧
    heapCalls.Run (fun _ _ => True) (.start mm₀) h ∧ h.live.length = 2 ∧ h.Sound := by
  obtain ⟨mm₀, s₁, s₂, init, first, second⟩ := boot_allocate_two
  have pos := Slab.blockAt_ne_zero BootInfo.virt.firstFree 2 0
  have pos' := Slab.blockAt_ne_zero BootInfo.virt.firstFree 2 1
  have ne : Slab.blockAt BootInfo.virt.firstFree 2 1 ≠ Slab.blockAt BootInfo.virt.firstFree 2 0 := by decide
  generalize Slab.blockAt BootInfo.virt.firstFree 2 0 = ptr at first pos ne
  generalize Slab.blockAt BootInfo.virt.firstFree 2 1 = ptr' at second pos' ne
  have freed : Slab.deallocate ptr 100 8 s₂ =
      .ok () ((s₂.setMem (s₂.mm.mem.store64 ptr (s₂.heads 2))).setHead 2 ptr) := rfl
  generalize third : Slab.setHead _ _ ptr = s₃ at freed
  have head : s₃.heads 2 = ptr := by rw [← third, Slab.setHead_self]
  have again := @Slab.allocate_head s₃ 100 8 2 (by decide) (by decide) (head ▸ pos)
  rw [head] at again
  generalize Slab.setHead _ _ _ = s₄ at again
  have live₁ : Heap.addLive 100 8 ptr ⟨s₁, []⟩ = ⟨s₁, [⟨ptr, 100, 8⟩]⟩ := if_neg pos
  have live₂ : Heap.addLive 100 8 ptr' ⟨s₂, [⟨ptr, 100, 8⟩]⟩ = ⟨s₂, [⟨ptr', 100, 8⟩, ⟨ptr, 100, 8⟩]⟩ := if_neg pos'
  have live₃ : [(⟨ptr', 100, 8⟩ : Block), ⟨ptr, 100, 8⟩].erase ⟨ptr, 100, 8⟩ = [⟨ptr', 100, 8⟩] := by
    simp [ne]
  have run₁ : heapCalls.Run (fun _ _ => True) (.start mm₀) ⟨s₁, [⟨ptr, 100, 8⟩]⟩ :=
    Stepper.Run.start.step (.alloc 100 8) trivial
      ⟨trivial, live₁ ▸ Outcome.ends_of_ok (Prog.bind_ok (Prog.zoom_ok first))⟩
  have run₂ : heapCalls.Run (fun _ _ => True) (.start mm₀) ⟨s₂, [⟨ptr', 100, 8⟩, ⟨ptr, 100, 8⟩]⟩ :=
    run₁.step (.alloc 100 8) trivial
      ⟨trivial, live₂ ▸ Outcome.ends_of_ok (Prog.bind_ok (Prog.zoom_ok second))⟩
  have back : Heap.onSlab (Slab.deallocate ptr 100 8) ⟨s₂, [⟨ptr', 100, 8⟩, ⟨ptr, 100, 8⟩]⟩ =
      .ok () ⟨s₃, [⟨ptr', 100, 8⟩, ⟨ptr, 100, 8⟩]⟩ := Prog.zoom_ok freed
  have run₃ : heapCalls.Run (fun _ _ => True) (.start mm₀) ⟨s₃, [⟨ptr', 100, 8⟩]⟩ :=
    run₂.step (.dealloc ⟨ptr, 100, 8⟩) trivial
      ⟨List.mem_cons_of_mem _ List.mem_cons_self, live₃ ▸ Outcome.ends_of_ok (Prog.bind_ok back)⟩
  have live₄ : Heap.addLive 100 8 ptr ⟨s₄, [⟨ptr', 100, 8⟩]⟩ = ⟨s₄, [⟨ptr, 100, 8⟩, ⟨ptr', 100, 8⟩]⟩ := if_neg pos
  have run : heapCalls.Run (fun _ _ => True) (.start mm₀) ⟨s₄, [⟨ptr, 100, 8⟩, ⟨ptr', 100, 8⟩]⟩ :=
    run₃.step (.alloc 100 8) trivial
      ⟨trivial, live₄ ▸ Outcome.ends_of_ok (Prog.bind_ok (Prog.zoom_ok again))⟩
  exact ⟨mm₀, _, init, run, rfl, (slab_blocks_apart init run).1⟩

/-! ## Alignment -/

/-- What an allocation is asked for. -/
structure Layout where
  size : Nat
  align : Nat
  pow : ∃ k, align = 2 ^ k
  fits : size + align ≤ 2 ^ 63

/-- The address under which the kernel reaches a frame. -/
def paToKernelVa (pa : Nat) : Nat := wadd pa kernelOffset

theorem paToKernelVa_mod (pa : Nat) : paToKernelVa pa % 32 = pa % 32 := by
  unfold paToKernelVa wadd kernelOffset
  omega

theorem blockSize_dvd {ci : Nat} (class_lt : ci < 7) : 32 ∣ blockSize ci := by
  interval_cases ci <;> decide

namespace Slab

/-- Every block lies 8 bytes behind a multiple of 32. -/
theorem IsBlock.mod {mm : Mm} {pages : List (Nat × Nat)} {ci a : Nat} (laid : Pages mm pages)
    (h : IsBlock pages ci a) : a % 32 = 8 := by
  obtain ⟨page, i, mem, lt, rfl⟩ := h
  have aligned : pageSize ∣ page := laid.aligned _ mem
  have stride : 32 ∣ i * blockSize ci := Dvd.dvd.mul_left (blockSize_dvd (laid.class_lt _ mem)) i
  unfold blockAt pageHeader
  unfold pageSize at aligned
  omega

/-- What an allocation returns lies 8 bytes behind a multiple of 32. -/
theorem Laid.allocate_mod {s s' : Slab} {live : List Block} {free : Nat → List Nat}
    (h : Laid s live free) {size align ptr : Nat} (ran : Slab.allocate size align s = .ok ptr s')
    (nonnull : ptr ≠ 0) : ptr % 32 = 8 := by
  obtain ⟨⟨free', laid⟩, _⟩ := (h.allocate size align).ok _ _ ran
  rw [withBlock, if_neg nonnull] at laid
  exact (laid.live_block _ List.mem_cons_self).mod laid.pages

end Slab

theorem dvd_iff_le_eight {align ptr : Nat} (pow : ∃ k, align = 2 ^ k) (le : align ≤ 64)
    (place : ptr % 32 = 8) : align ∣ ptr ↔ align ≤ 8 := by
  obtain ⟨k, rfl⟩ := pow
  have small : k ≤ 6 := (Nat.pow_le_pow_iff_right (by decide : 1 < 2)).mp le
  interval_cases k <;> omega

/-- In every state the heap reaches, the block that is returned has the alignment of its layout exactly
when the layout asks for at most the 8 bytes of the page header. -/
theorem slab_ptr_aligned_iff {b : BootInfo} {mem : Mem} {mm₀ : Mm} {h : Heap}
    (init : Mm.init b mem = some mm₀) (run : heapCalls.Run (fun _ _ => True) (.start mm₀) h)
    (layout : Layout) (le : layout.align ≤ 64) {ptr : Nat} {s' : Slab}
    (ran : Slab.allocate layout.size layout.align h.slab = .ok ptr s') (nonnull : ptr ≠ 0) :
    layout.align ∣ paToKernelVa ptr ↔ layout.align ≤ 8 := by
  obtain ⟨free, laid⟩ : h.Good := run.invariant ⟨_, Slab.laid_start (init_booted init).wf⟩
    fun op h h' good _ step => (good.step step).1
  refine dvd_iff_le_eight layout.pow le ?_
  rw [paToKernelVa_mod]
  exact laid.allocate_mod ran nonnull

/-- Right after boot, 100 bytes that are aligned to 8. -/
theorem slab_ptr_aligned_iff_boot : ∃ mm₀ ptr s', Mm.init BootInfo.virt (fun _ => 0) = some mm₀ ∧
    Slab.allocate 100 8 (Heap.start mm₀).slab = .ok ptr s' ∧ ptr ≠ 0 ∧ 8 ∣ paToKernelVa ptr := by
  obtain ⟨mm₀, s', init, allocated⟩ := boot_allocate 100 8 2 (by decide)
    (by decide)
  have pos := Slab.blockAt_ne_zero BootInfo.virt.firstFree 2 0
  exact ⟨mm₀, _, s', init, allocated, pos, (slab_ptr_aligned_iff init .start
    ⟨100, 8, ⟨3, rfl⟩, by decide⟩ (by decide) allocated pos).mpr (by decide)⟩

/-- Right after boot, 100 bytes that are to be aligned to 16 are not. -/
theorem slab_ptr_misaligned : ¬ ∀ (b : BootInfo) (mem : Mem) (mm₀ : Mm) (h : Heap),
    Mm.init b mem = some mm₀ → heapCalls.Run (fun _ _ => True) (.start mm₀) h →
    ∀ (layout : Layout) (ptr : Nat) (s' : Slab), layout.align ≤ 64 →
      Slab.allocate layout.size layout.align h.slab = .ok ptr s' → ptr ≠ 0 →
      layout.align ∣ paToKernelVa ptr := by
  intro claim
  obtain ⟨mm₀, s', init, allocated⟩ := boot_allocate 100 16 2 (by decide)
    (by decide)
  have pos := Slab.blockAt_ne_zero BootInfo.virt.firstFree 2 0
  have aligned : 16 ∣ paToKernelVa _ := claim _ _ _ _ init .start ⟨100, 16, ⟨4, rfl⟩, by decide⟩ _ s'
    (by decide) allocated pos
  have place := (Slab.laid_start (init_booted init).wf).allocate_mod allocated pos
  rw [← paToKernelVa_mod] at place
  omega

end CapsuleOS
