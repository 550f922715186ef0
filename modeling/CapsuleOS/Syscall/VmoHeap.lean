import CapsuleOS.Memory.Slab
import CapsuleOS.Memory.VmoCreate
import CapsuleOS.Ipc.Custody

/-!
# VMO creation on the kernel heap

`create_with_size` takes one page for the metadata and then the buffer of its vector from the heap: 16
bytes for each page. A heap that has no block for the buffer hands out null, and the vector aborts. The
number of pages is bounded by `VMO_MAX_PAGES`, the blocks of the heap by 2048 bytes.

What the buffer holds is in `committedPages`.
-/
namespace CapsuleOS

open Lib

/-- The memory behind a vector. -/
structure Buffer where
  ptr : Nat
  bytes : Nat

namespace Slab

/-- `Vec::with_capacity`, for elements that are aligned to 8 bytes. -/
def withCapacity (bytes : Nat) : SlabM Buffer :=
  if bytes = 0 then pure ⟨8, 0⟩
  else do
    let ptr ← allocate bytes 8
    if ptr = 0 then Prog.fault
    else return ⟨ptr, bytes⟩

def dropBuffer (b : Buffer) : SlabM Unit :=
  if b.bytes = 0 then pure () else deallocate b.ptr b.bytes 8

end Slab

namespace Vmo

/-- The size of an `Option<PhysPage>`. -/
def pageEntrySize : Nat := 16

/-- What is left to do when the first metadata page is there. The buffer goes back when another one is
missing. -/
def createOver (pages metaPa : Nat) : SlabM (Vmo × Buffer) := do
  let mpn := metaPagesNeeded pages
  let buffer ← Slab.withCapacity (pages * pageEntrySize)
  Slab.onMm (Prog.modify fun m => m.setMem (writeHeader m.mem metaPa pages 0 mpn))
  match ← Prog.attempt (Slab.onMm
    (addMetaPages metaPa (List.range' 1 (mpn - 1)) (List.replicate 8 none))) with
  | .ok extra =>
    let id ← Slab.onMm newId
    return (ofMeta id (metaPa, extra) pages (List.replicate pages none), buffer)
  | .error e =>
    Slab.dropBuffer buffer
    Prog.throw e

/-- `createWithSize` with the buffer of the vector. -/
def createOnHeap (size : Nat) : SlabM (Vmo × Buffer) :=
  if size = 0 then Prog.throw .invalidArgs
  else if pagesOf size > vmoMaxPages then Prog.throw .invalidArgs
  else do
    let metaPa ← Slab.onMm allocVmoMeta
    createOver (pagesOf size) metaPa

end Vmo

/-- The kernel and its heap. -/
structure HeapKernel where
  kernel : Kernel
  heads : Nat → Nat
  pages : List (Nat × Nat)

abbrev HeapKernelM := Prog HeapKernel Status

namespace HeapKernel

def slab (s : HeapKernel) : Slab := { mm := s.kernel.mm, heads := s.heads, pages := s.pages }

def setSlab (h : Slab) (s : HeapKernel) : HeapKernel :=
  { kernel := { s.kernel with mm := h.mm }, heads := h.heads, pages := h.pages }

def onSlab {α : Type} (m : SlabM α) : HeapKernelM α := Prog.zoom slab setSlab m

def onKernel {α : Type} (m : KernelM α) : HeapKernelM α :=
  Prog.zoom kernel (fun kernel s => { s with kernel }) m

/-- When the table is full, the object is dropped: first its frames, then its buffer. -/
def sysVmoCreate (tab size : Nat) : HeapKernelM Nat := do
  let (vmo, buffer) ← onSlab (Vmo.createOnHeap size)
  match ← Prog.attempt
    (onKernel (Kernel.addHandle tab (.vmo vmo) (Rights.read ||| Rights.write))) with
  | .ok hv => return hv
  | .error e =>
    onSlab (Slab.dropBuffer buffer)
    Prog.throw e

/-- An error, or a handle to an object of `size` bytes rounded up to pages. -/
inductive Served (tab size : Nat) : Outcome HeapKernel Status Nat → Prop where
  | error (e : Status) (s : HeapKernel) : Served tab size (.err e s)
  | handle (hv : Nat) (s : HeapKernel) (v : Vmo)
      (entry : ⟨hv, Rights.read ||| Rights.write, .vmo v⟩ ∈ (s.kernel.tables tab).occupants)
      (size_eq : v.size = (size + 4095) / 4096 * 4096) (bound : v.pageCount ≤ vmoMaxPages) :
      Served tab size (.ok hv s)

end HeapKernel

namespace Slab

/-- There is a class for `bytes`, and its list is not empty or can be filled. -/
def CanServe (s : Slab) (bytes : Nat) : Prop := ∃ ci, classIndex bytes 8 = some ci ∧
  (s.heads ci ≠ 0 ∨ ∃ pa mm, allocKheapPage s.mm = .ok pa mm)

variable {s : Slab} {bytes ci : Nat}

theorem claim_tag_ne_free {mm : Mm} {tag : PageTag} {pa q : Nat} (busy : tag ≠ .free)
    (used : mm.tag q ≠ .free) : (mm.claim tag pa).tag q ≠ .free := by
  by_cases same : paToPfn q = paToPfn pa
  · exact fun eq => busy ((if_pos same).symm.trans eq)
  · exact fun eq => used ((if_neg same).symm.trans eq)

/-- Frames that are in use stay in use. -/
def KeepsTags (s s' : Slab) : Prop := ∀ q, s.mm.tag q ≠ .free → s'.mm.tag q ≠ .free

/-! ## The buffer of a vector -/

theorem withCapacity_ok (pos : bytes ≠ 0) {ptr : Nat} {s' : Slab} (run : allocate bytes 8 s = .ok ptr s')
    (nonzero : ptr ≠ 0) : withCapacity bytes s = .ok ⟨ptr, bytes⟩ s' := by
  unfold withCapacity
  rw [if_neg pos, Prog.bind_ok run, if_neg nonzero]
  rfl

theorem withCapacity_null (pos : bytes ≠ 0) {s' : Slab} (run : allocate bytes 8 s = .ok 0 s') :
    withCapacity bytes s = .fault s' := by
  unfold withCapacity
  rw [if_neg pos, Prog.bind_ok run, if_pos rfl]
  rfl

theorem withCapacity_served (wf : s.mm.WF) (pos : bytes ≠ 0) (serve : s.CanServe bytes) :
    ∃ b s', withCapacity bytes s = .ok b s' ∧ KeepsTags s s' := by
  obtain ⟨ci, class_, ready⟩ := serve
  by_cases empty : s.heads ci = 0
  · obtain ⟨pa, mm, taken⟩ := ready.resolve_left (not_not.mpr empty)
    have run := allocate_first (by decide) class_ empty taken
    refine ⟨_, _, withCapacity_ok pos run (blockAt_ne_zero pa ci 0), fun q used => ?_⟩
    obtain ⟨_, rfl⟩ := (allocPage_post wf .kernelHeap).ok _ _ taken
    exact claim_tag_ne_free (by decide) used
  · exact ⟨_, _, withCapacity_ok pos (allocate_head (by decide) class_ empty) empty, fun q used => used⟩

theorem withCapacity_refused (pos : bytes ≠ 0) (refused : ¬ s.CanServe bytes) :
    ∃ s', withCapacity bytes s = .fault s' := by
  cases class_ : classIndex bytes 8 with
  | none => exact ⟨s, withCapacity_null pos (allocate_none (by decide) class_)⟩
  | some ci =>
    have class_lt := classIndex_lt class_
    have empty : s.heads ci = 0 := by
      by_contra head
      exact refused ⟨ci, class_, .inl head⟩
    have run := allocate_empty (by decide) class_ empty
    cases page : allocKheapPage s.mm with
    | ok pa mm => exact absurd ⟨ci, class_, .inr ⟨pa, mm, page⟩⟩ refused
    | err e mm =>
      rw [Prog.bind_ok (refill_err class_lt page), pop, if_pos empty] at run
      exact ⟨_, withCapacity_null pos run⟩
    | fault mm =>
      rw [Prog.bind_fault (refill_fault class_lt page)] at run
      unfold withCapacity
      rw [if_neg pos]
      exact ⟨_, Prog.bind_fault run⟩

end Slab

/-! ## Sizes -/

namespace Vmo

variable {size : Nat}

/-- The page count of the sizes that do not wrap. -/
theorem pagesOf_exact (le : size ≤ 2 ^ 64 - 4096) : pagesOf size = (size + 4095) / 4096 := by
  unfold pagesOf wsub wadd pageSize
  omega

theorem pagesOf_wraps (gt : 2 ^ 64 - 4096 < size) (lt : size < 2 ^ 64) : pagesOf size = 0 := by
  unfold pagesOf wsub wadd pageSize
  omega

theorem large_of_pagesOf (lt : size < 2 ^ 64) (large : pagesOf size > vmoMaxPages) :
    vmoMaxPages * pageSize < size ∧ size ≤ 2 ^ 64 - 4096 := by
  by_cases le : size ≤ 2 ^ 64 - 4096
  · rw [pagesOf_exact le] at large
    unfold vmoMaxPages pageSize at *
    omega
  · rw [pagesOf_wraps (by omega) lt] at large
    cases large

theorem pagesOf_of_large (gt : vmoMaxPages * pageSize < size) (le : size ≤ 2 ^ 64 - 4096) :
    pagesOf size > vmoMaxPages := by
  rw [pagesOf_exact le]
  unfold vmoMaxPages pageSize at *
  omega

/-! ## Creation -/

variable {s : Slab}

theorem createOnHeap_eq (pos : size ≠ 0) (le : pagesOf size ≤ vmoMaxPages) :
    createOnHeap size s = (Slab.onMm allocVmoMeta >>= createOver (pagesOf size)) s := by
  unfold createOnHeap
  rw [if_neg pos, if_neg (Nat.not_lt_of_le le)]

/-- The buffer is there, and no other metadata page is needed. -/
theorem createOver_ok {pages : Nat} (metaPa : Nat) (few : pages ≤ 249) {b : Buffer} {s' : Slab}
    (buffer : Slab.withCapacity (pages * pageEntrySize) s = .ok b s') :
    ∃ s'' id, createOver pages metaPa s =
      .ok (ofMeta id (metaPa, List.replicate 8 none) pages (List.replicate pages none), b) s'' ∧
      Slab.KeepsTags s' s'' := by
  have one : metaPagesNeeded pages - 1 = 0 := by
    unfold metaPagesNeeded
    rw [slotsPerPage_eq]
    omega
  unfold createOver
  rw [Prog.bind_ok buffer, one]
  exact ⟨_, _, rfl, fun q used => used⟩

/-- With a block at hand for the vector, an object is made as without one. -/
theorem createOnHeap_of_createWithSize {v : Vmo} {mm' : Mm} {ci : Nat}
    (ok : createWithSize size s.mm = .ok v mm') (some_ : pagesOf size * pageEntrySize ≠ 0)
    (class_ : classIndex (pagesOf size * pageEntrySize) 8 = some ci) (head : s.heads ci ≠ 0) :
    ∃ b h, createOnHeap size s = .ok (v, b) h ∧ h.mm = mm' := by
  simp only [createWithSize] at ok
  split_ifs at ok with zero large
  · cases ok
  · cases ok
  obtain ⟨parts, mm₁, meta_, ok⟩ := Prog.bind_eq_ok ok
  obtain ⟨metaPa, mm₂, first, rest⟩ := Prog.bind_eq_ok meta_
  obtain ⟨_, mm₃, header, rest'⟩ := Prog.bind_eq_ok rest
  cases header
  obtain ⟨extra, mm₄, more, last⟩ := Prog.bind_eq_ok rest'
  cases last
  cases ok
  have page : Slab.onMm allocVmoMeta s = .ok metaPa { s with mm := mm₂ } := Prog.zoom_ok first
  have buffer := Slab.withCapacity_ok some_ (Slab.allocate_head (s := { s with mm := mm₂ }) (by decide) class_ head) head
  rw [createOnHeap_eq zero (Nat.le_of_not_lt large), Prog.bind_ok page]
  unfold createOver
  rw [Prog.bind_ok buffer]
  generalize taken : Slab.setHead { s with mm := mm₂ } ci _ = h
  have below : h.mm = mm₂ := by rw [← taken]; rfl
  rw [← below] at more
  set mem := writeHeader h.mm.mem metaPa (pagesOf size) 0 (metaPagesNeeded (pagesOf size)) with mem_eq
  have header : Slab.onMm (Prog.modify fun m => m.setMem
      (writeHeader m.mem metaPa (pagesOf size) 0 (metaPagesNeeded (pagesOf size)))) h =
      .ok () (h.setMem mem) := Prog.zoom_ok rfl
  have pages : Slab.onMm (addMetaPages metaPa (List.range' 1 (metaPagesNeeded (pagesOf size) - 1))
      (List.replicate 8 none)) (h.setMem mem) = .ok extra { h with mm := mm₁ } := Prog.zoom_ok more
  rw [Prog.bind_ok header, Prog.bind_ok (Prog.attempt_ok pages)]
  exact ⟨_, _, rfl, rfl⟩

theorem createOver_fault {pages metaPa : Nat} {s' : Slab}
    (buffer : Slab.withCapacity (pages * pageEntrySize) s = .fault s') :
    createOver pages metaPa s = .fault s' := Prog.bind_fault buffer

end Vmo

/-! ## The handle -/

theorem dropPhysPage_ok {mm : Mm} {pa : Nat} (ram : paToPfn pa < maxPages) (used : mm.tag pa ≠ .free) :
    ∃ mm', dropPhysPage pa mm = .ok () mm' := by
  unfold dropPhysPage
  by_cases zero : pa = 0
  · rw [if_pos zero]
    exact ⟨mm, rfl⟩
  · rw [if_neg zero, freePage, if_neg (Nat.not_le_of_lt ram), if_neg used]
    exact ⟨_, rfl⟩

theorem Slab.dropBuffer_ok (b : Buffer) (s : Slab) : ∃ s', Slab.dropBuffer b s = .ok () s' := by
  unfold Slab.dropBuffer Slab.deallocate
  by_cases none_ : b.bytes = 0
  · rw [if_pos none_]
    exact ⟨s, rfl⟩
  · rw [if_neg none_]
    cases classIndex b.bytes 8 with
    | none => exact ⟨s, rfl⟩
    | some ci => exact ⟨_, rfl⟩

namespace Kernel

variable {k : Kernel} {tab : Nat}

/-- A fresh object that finds no slot goes back to the allocator. -/
theorem addHandle_refused {v : Vmo} {rights : Nat} (full : (k.tables tab).Full)
    (owned : v.owned = [v.metaPage]) (ram : paToPfn v.metaPage < maxPages)
    (used : k.mm.tag v.metaPage ≠ .free) : ∃ k', addHandle tab (.vmo v) rights k = .err .noMemory k' := by
  obtain ⟨mm', gone⟩ := dropPhysPage_ok ram used
  have dropped : v.drop k.bumpHandleValue.mm = .ok () mm' := by
    unfold Vmo.drop
    rw [owned]
    exact Prog.bind_ok gone
  have object : dropObject (.vmo v) k.bumpHandleValue = .ok () { k.bumpHandleValue with mm := mm' } := by
    change onMm v.drop k.bumpHandleValue = _
    exact Prog.zoom_ok dropped
  have none_ : (k.tables tab).insert? ⟨k.handleValueCounter, rights, .vmo v⟩ = none :=
    Slots.insert?_eq_none.mpr full
  have put : putSlot tab ⟨k.handleValueCounter, rights, .vmo v⟩ k.bumpHandleValue =
      .err .noMemory { k.bumpHandleValue with mm := mm' } := by
    unfold putSlot
    rw [show (k.bumpHandleValue.tables tab).insert? _ = none from none_]
    exact (Prog.bind_ok object).trans rfl
  have next : nextHandleValue k = .ok k.handleValueCounter k.bumpHandleValue := rfl
  exact ⟨_, (Prog.bind_ok next).trans (Prog.bind_err put)⟩

end Kernel

namespace HeapKernel

variable {s : HeapKernel} {tab size : Nat}

/-- Nothing is left to do when there is no object. -/
theorem sysVmoCreate_err {e : Status} {h : Slab} (failed : Vmo.createOnHeap size s.slab = .err e h) :
    sysVmoCreate tab size s = .err e (s.setSlab h) := Prog.bind_err (Prog.zoom_err failed)

theorem sysVmoCreate_fault {h : Slab} (aborts : Vmo.createOnHeap size s.slab = .fault h) :
    sysVmoCreate tab size s = .fault (s.setSlab h) := Prog.bind_fault (Prog.zoom_fault aborts)

/-- An object gets a handle while the table has room. -/
theorem sysVmoCreate_room {v : Vmo} {b : Buffer} {h : Slab}
    (made : Vmo.createOnHeap size s.slab = .ok (v, b) h) (room : ¬ (s.kernel.tables tab).Full) :
    ∃ hv s', sysVmoCreate tab size s = .ok hv s' ∧
      ⟨hv, Rights.read ||| Rights.write, .vmo v⟩ ∈ (s'.kernel.tables tab).occupants := by
  have few : ((s.setSlab h).kernel.tables tab).occupants.length < maxHandles :=
    lt_of_le_of_ne (Slots.occupants_length_le _) room
  obtain ⟨t, put, ran⟩ := Kernel.addHandle_room tab (.vmo v) (Rights.read ||| Rights.write) few
  have object : onSlab (Vmo.createOnHeap size) s = .ok (v, b) (s.setSlab h) := Prog.zoom_ok made
  have added : onKernel (Kernel.addHandle tab (.vmo v) (Rights.read ||| Rights.write)) (s.setSlab h) =
      .ok _ _ := Prog.zoom_ok ran
  refine ⟨_, _, (Prog.bind_ok object).trans ((Prog.bind_ok (Prog.attempt_ok added)).trans rfl), ?_⟩
  rw [Kernel.setTable_tables_same]
  exact (Slots.insert?_perm put).mem_iff.mpr List.mem_cons_self

/-- Without a slot the object is dropped. -/
theorem sysVmoCreate_full {v : Vmo} {b : Buffer} {h : Slab}
    (made : Vmo.createOnHeap size s.slab = .ok (v, b) h) (full : (s.kernel.tables tab).Full)
    (owned : v.owned = [v.metaPage]) (ram : paToPfn v.metaPage < maxPages)
    (used : h.mm.tag v.metaPage ≠ .free) : ∃ s', sysVmoCreate tab size s = .err .noMemory s' := by
  obtain ⟨k', ran⟩ : ∃ k', Kernel.addHandle tab (.vmo v) (Rights.read ||| Rights.write)
      (s.setSlab h).kernel = .err .noMemory k' := Kernel.addHandle_refused full owned ram used
  have object : onSlab (Vmo.createOnHeap size) s = .ok (v, b) (s.setSlab h) := Prog.zoom_ok made
  have refused : onKernel (Kernel.addHandle tab (.vmo v) (Rights.read ||| Rights.write)) (s.setSlab h) =
      .err .noMemory { s.setSlab h with kernel := k' } := Prog.zoom_err ran
  obtain ⟨h', freed⟩ := Slab.dropBuffer_ok b { s.setSlab h with kernel := k' }.slab
  have buffer : onSlab (Slab.dropBuffer b) { s.setSlab h with kernel := k' } = .ok () _ :=
    Prog.zoom_ok freed
  exact ⟨_, (Prog.bind_ok object).trans ((Prog.bind_ok (Prog.attempt_err refused)).trans
    ((Prog.bind_ok buffer).trans rfl))⟩

/-- With a page and a buffer, the call succeeds unless the table is full. -/
theorem sysVmoCreate_made (tab : Nat) (wf : s.kernel.mm.WF) (pos : size ≠ 0) (few : Vmo.pagesOf size ≤ 249)
    {metaPa : Nat} {mm : Mm} (first : allocVmoMeta s.kernel.mm = .ok metaPa mm) {b : Buffer} {h : Slab}
    (buffer : Slab.withCapacity (Vmo.pagesOf size * 16) { s.slab with mm } = .ok b h)
    (keeps : Slab.KeepsTags { s.slab with mm } h) :
    ((s.kernel.tables tab).Full ∧ ∃ s', sysVmoCreate tab size s = .err .noMemory s') ∨
      (¬ (s.kernel.tables tab).Full ∧ ∃ hv s' v, sysVmoCreate tab size s = .ok hv s' ∧
        ⟨hv, Rights.read ||| Rights.write, .vmo v⟩ ∈ (s'.kernel.tables tab).occupants ∧
        v.size = Vmo.pagesOf size * pageSize) := by
  obtain ⟨h', id, over_, kept⟩ := Vmo.createOver_ok metaPa few buffer
  obtain ⟨cand, rfl⟩ := (allocPage_post wf .vmoData).ok _ _ first
  have page : Slab.onMm allocVmoMeta s.slab = .ok metaPa { s.slab with mm := _ } := Prog.zoom_ok first
  have made := (Vmo.createOnHeap_eq (s := s.slab) pos (by unfold vmoMaxPages; omega)).trans
    ((Prog.bind_ok page).trans over_)
  by_cases full : (s.kernel.tables tab).Full
  · have ram : paToPfn metaPa < maxPages := by
      rw [paToPfn_of_ge cand.ge_ram cand.lt_word]
      have top := cand.lt_ram
      unfold ramSize at top
      unfold maxPages ramSize
      omega
    have used : (s.kernel.mm.claim .vmoData metaPa).tag metaPa ≠ .free := by
      simp [Mm.tag, Mm.claim, Mm.setTag]
    refine .inl ⟨full, sysVmoCreate_full made full ?_ ram (kept _ (keeps _ used))⟩
    simp [Vmo.owned, Vmo.ofMeta, Cells.occupants]
  · obtain ⟨hv, s', run, entry⟩ := sysVmoCreate_room made full
    exact .inr ⟨full, hv, s', _, run, entry, rfl⟩

/-- The sizes that get a metadata page. -/
theorem served_over (wf : s.kernel.mm.WF) (lt : size < 2 ^ 64) (pos : size ≠ 0)
    (le : Vmo.pagesOf size ≤ vmoMaxPages) {metaPa : Nat} {mm : Mm}
    (first : allocVmoMeta s.kernel.mm = .ok metaPa mm) :
    Served tab size (sysVmoCreate tab size s) ↔
      (size ≤ 128 * pageSize ∧ { s.slab with mm }.CanServe (Vmo.pagesOf size * 16)) ∨
        (2 ^ 64 - 4096 < size ∧ (s.kernel.tables tab).Full) := by
  have page : (128 : Nat) * pageSize = 0x80000 := rfl
  by_cases wraps : 2 ^ 64 - 4096 < size
  · -- no page is asked for, and the vector has no buffer
    have none_ : Vmo.pagesOf size = 0 := Vmo.pagesOf_wraps wraps lt
    have buffer : Slab.withCapacity (Vmo.pagesOf size * 16) { s.slab with mm } =
        .ok ⟨8, 0⟩ { s.slab with mm } := by
      rw [none_]
      rfl
    rcases sysVmoCreate_made tab wf pos (by omega) first buffer fun q used => used with
      ⟨full, s', run⟩ | ⟨room, hv, s', v, run, _, _⟩
    · rw [run]
      exact iff_of_true (.error _ _) (.inr ⟨wraps, full⟩)
    · rw [run]
      refine iff_of_false (fun served => ?_) ?_
      · cases served with
        | handle _ _ w _ size_eq bound =>
          unfold Vmo.pageCount pageSize vmoMaxPages at bound
          omega
      · rintro (⟨small, _⟩ | ⟨_, full⟩)
        · omega
        · exact room full
  · have count : Vmo.pagesOf size = (size + 4095) / 4096 := Vmo.pagesOf_exact (by omega)
    have some_ : Vmo.pagesOf size * 16 ≠ 0 := by omega
    by_cases serve : Slab.CanServe { s.slab with mm } (Vmo.pagesOf size * 16)
    · have few : Vmo.pagesOf size ≤ 128 := by
        obtain ⟨ci, class_, _⟩ := serve
        by_contra many
        rw [classIndex_eq_none.mpr (lt_max_of_lt_left (by omega))] at class_
        cases class_
      have wf' : mm.WF := by
        obtain ⟨cand, rfl⟩ := (allocPage_post wf .vmoData).ok _ _ first
        exact wf.claim cand
      obtain ⟨b, h, buffer, keeps⟩ := Slab.withCapacity_served wf' some_ serve
      rcases sysVmoCreate_made tab wf pos (by omega) first buffer keeps with
        ⟨full, s', run⟩ | ⟨room, hv, s', v, run, entry, size_eq⟩
      · rw [run]
        exact iff_of_true (.error _ _) (.inl ⟨by omega, serve⟩)
      · rw [run]
        refine iff_of_true (.handle hv s' v entry ?_ ?_) (.inl ⟨by omega, serve⟩)
        · rw [size_eq, count]
          rfl
        · rw [Vmo.pageCount, size_eq, Nat.mul_div_cancel _ (by decide)]
          exact le
    · obtain ⟨h, aborts⟩ := Slab.withCapacity_refused some_ serve
      have taken : Slab.onMm allocVmoMeta s.slab = .ok metaPa { s.slab with mm } := Prog.zoom_ok first
      have run := (Vmo.createOnHeap_eq (s := s.slab) pos le).trans
        ((Prog.bind_ok taken).trans (Vmo.createOver_fault aborts))
      rw [sysVmoCreate_fault run]
      refine iff_of_false (fun served => by cases served) ?_
      rintro (⟨_, serve'⟩ | ⟨gt, _⟩)
      · exact serve serve'
      · exact wraps gt

end HeapKernel

open HeapKernel in
/-- What creation does, for every size. -/
theorem vmo_create_served {s : HeapKernel} {tab size : Nat} (wf : s.kernel.mm.WF) (lt : size < 2 ^ 64) :
    Served tab size (sysVmoCreate tab size s) ↔
      size = 0 ∨ (vmoMaxPages * pageSize < size ∧ size ≤ 2 ^ 64 - 4096) ∨
      (∃ e mm, allocVmoMeta s.kernel.mm = .err e mm) ∨
      ∃ metaPa mm, allocVmoMeta s.kernel.mm = .ok metaPa mm ∧
        ((size ≤ 128 * pageSize ∧ { s.slab with mm }.CanServe (Vmo.pagesOf size * 16)) ∨
          (2 ^ 64 - 4096 < size ∧ (s.kernel.tables tab).Full)) := by
  by_cases zero : size = 0
  · have refused : Vmo.createOnHeap size s.slab = .err .invalidArgs s.slab := by
      unfold Vmo.createOnHeap
      rw [if_pos zero]
      rfl
    rw [sysVmoCreate_err refused]
    exact iff_of_true (.error _ _) (.inl zero)
  by_cases large : Vmo.pagesOf size > vmoMaxPages
  · have refused : Vmo.createOnHeap size s.slab = .err .invalidArgs s.slab := by
      unfold Vmo.createOnHeap
      rw [if_neg zero, if_pos large]
      rfl
    rw [sysVmoCreate_err refused]
    exact iff_of_true (.error _ _) (.inr (.inl (Vmo.large_of_pagesOf lt large)))
  -- the sizes that reach the allocator
  have small : ¬ (size = 0 ∨ vmoMaxPages * pageSize < size ∧ size ≤ 2 ^ 64 - 4096) := by
    rintro (eq | ⟨gt, le⟩)
    · exact zero eq
    · exact large (Vmo.pagesOf_of_large gt le)
  have start := Vmo.createOnHeap_eq (s := s.slab) zero (Nat.le_of_not_lt large)
  rw [← or_assoc, or_iff_right small]
  cases first : allocVmoMeta s.kernel.mm with
  | err e mm =>
    have failed : Slab.onMm allocVmoMeta s.slab = .err e { s.slab with mm } := Prog.zoom_err first
    rw [sysVmoCreate_err (start.trans (Prog.bind_err failed))]
    exact iff_of_true (.error _ _) (.inl ⟨e, mm, rfl⟩)
  | fault mm =>
    have aborts : Slab.onMm allocVmoMeta s.slab = .fault { s.slab with mm } := Prog.zoom_fault first
    rw [sysVmoCreate_fault (start.trans (Prog.bind_fault aborts))]
    refine iff_of_false (fun served => by cases served) ?_
    rintro (⟨e, mm, eq⟩ | ⟨pa, mm, eq, _⟩) <;> cases eq
  | ok metaPa mm =>
    rw [served_over wf lt zero (Nat.le_of_not_lt large) first]
    constructor
    · exact fun cond => .inr ⟨metaPa, mm, rfl, cond⟩
    · rintro (⟨e, u, eq⟩ | ⟨p, u, eq, cond⟩) <;> cases eq
      exact cond

/-- A machine with 256 MB of free memory, on which nothing has been allocated. -/
def HeapKernel.booted : HeapKernel where
  kernel :=
    { mm := Mm.boot 0x40200000 0x50000000
      handleValueCounter := 1000
      channelIdCounter := 1
      tables := fun _ => Slots.empty
      chans := fun _ => none
      threads := Slots.empty
      queues := fun _ => []
      ticks := 0
      registry := Slots.empty }
  heads := fun _ => 0
  pages := []

theorem HeapKernel.booted_wf : HeapKernel.booted.kernel.mm.WF := ⟨by decide, by decide⟩

theorem HeapKernel.booted_page : allocVmoMeta HeapKernel.booted.kernel.mm =
    .ok 0x40200000 (allocVmoMeta HeapKernel.booted.kernel.mm).state :=
  Outcome.eq_ok_of_value? (by decide +kernel)

open HeapKernel in
/-- An object of one page. -/
theorem vmo_create_served_page : Served 0 4096 (sysVmoCreate 0 4096 booted) := by
  refine (vmo_create_served booted_wf (by decide)).mpr (.inr (.inr (.inr ?_)))
  refine ⟨0x40200000, _, booted_page, .inl ⟨by decide, 0, by decide, .inr ⟨0x40201000, ?_⟩⟩⟩
  exact ⟨_, Outcome.eq_ok_of_value? (by decide +kernel)⟩

open HeapKernel in
/-- 129 pages are admitted, and their vector takes 2064 bytes. -/
theorem vmo_of_129_pages_aborts : ¬ ∀ (s : HeapKernel) (tab size : Nat), s.kernel.mm.WF →
    size < 2 ^ 64 → Served tab size (sysVmoCreate tab size s) := by
  intro claim
  have served := claim booted 0 (129 * 4096) booted_wf (by decide)
  rw [served_over booted_wf (by decide) (by decide) (by decide) booted_page] at served
  rcases served with ⟨small, _⟩ | ⟨wraps, _⟩
  · exact absurd small (by decide)
  · exact absurd wraps (by decide)

end CapsuleOS
