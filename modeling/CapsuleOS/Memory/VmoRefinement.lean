import CapsuleOS.Memory.VmoCreate

/-!
# Whole runs on one VMO

A client creates an object and then reads, writes and commits in any order. Every answer it gets is
the answer of a zero-initialised flat array, and no slot write disturbs the rest of the metadata.
-/
namespace CapsuleOS

open Lib

inductive VmoOp where
  | read (offset : Nat) (buf : List UInt8)
  | write (offset : Nat) (buf : List UInt8)
  | commit (offset : Nat)

/-- What the caller of an operation sees. -/
inductive VmoObs where
  | read (count : Nat) (buf : List UInt8)
  | write (result : Except Status Nat)
  | commit (result : Except Status Unit)
  deriving DecidableEq

def VmoOp.exec : VmoOp → VmoM VmoObs
  | .read offset buf => fun s =>
    let (n, out) := s.vmo.read s.mm.mem offset buf
    .ok (.read n out) s
  | .write offset buf => do
    let r ← Prog.attempt (Vmo.write offset buf)
    return .write r
  | .commit offset => do
    let r ← Prog.attempt (Vmo.commitPage offset)
    return .commit (r.map fun _ => ())

def runVmoOps : List VmoOp → VmoM (List VmoObs)
  | [] => pure []
  | op :: ops => do
    let o ← op.exec
    let os ← runVmoOps ops
    return o :: os

namespace FlatArray

def exec (a : List UInt8) : VmoOp → VmoObs × List UInt8
  | .read offset buf => (.read (read a offset buf).1 (read a offset buf).2, a)
  | .write offset buf => (.write (.ok (write a offset buf).1), (write a offset buf).2)
  | .commit offset => (.commit (if offset < a.length then .ok () else .error .invalidArgs), a)

def run (a : List UInt8) : List VmoOp → List VmoObs × List UInt8
  | [] => ([], a)
  | op :: ops => ((exec a op).1 :: (run (exec a op).2 ops).1, (run (exec a op).2 ops).2)

end FlatArray

namespace Vmo

/-- Writing any slot of `v` keeps the header, the pointer table and every other slot. -/
def SlotWritesFramed (v : Vmo) (m : Mem) : Prop :=
  ∀ i < v.pageCount, ∀ pa,
    m.SameOn (writeSlot m (v.pageSlot m i) pa) v.metaPage headerSize ∧
    m.SameOn (writeSlot m (v.pageSlot m i) pa) (v.metaPage + paTableBase) paTableSize ∧
    ∀ j < v.pageCount, j ≠ i →
      m.SameOn (writeSlot m (v.pageSlot m i) pa) (v.pageSlot m j) slotSize ∧
      v.pageSlot (writeSlot m (v.pageSlot m i) pa) j = v.pageSlot m j

theorem Laid.slotWritesFramed {v : Vmo} {m : Mem} (h : v.Laid m) : v.SlotWritesFramed m := by
  intro i hi pa
  refine ⟨writeSlot_header h hi, writeSlot_table h hi pa, fun j hj ne => ⟨writeSlot_other h hi hj ne, ?_⟩⟩
  rw [pageSlot_eq (h.of_table (writeSlot_table h hi pa)) hj, pageSlot_eq h hj]

/-- The object is a faithful copy of the array `a`, and every page it lacks can be committed. -/
structure Refines (s : VmoState) (a : List UInt8) : Prop where
  valid : s.Valid
  room : Room s
  owned : ∀ i < s.vmo.pageCount, s.vmo.committedPages[i]? = some none → s.vmo.slot s.mm.mem i = none
  content : s.vmo.contents s.mm.mem = a

variable {s : VmoState} {a : List UInt8}

theorem Refines.length (h : Refines s a) : a.length = s.vmo.size := by
  rw [← h.content, contents_length]

theorem Refines.committable (h : Refines s a) (offset : Nat) : Committable s offset :=
  fun hc lt => h.owned _ (h.valid.backed.page_lt lt) hc

/-- What a growing step keeps of the refinement. -/
theorem Refines.grow (h : Refines s a) {s' : VmoState} {a' : List UInt8} (grown : Extends s s')
    (room : Room s') (content : s.vmo.contents s'.mm.mem = a') : Refines s' a' where
  valid := grown.valid
  room := room
  owned := by
    intro i hi hc
    have hi' : i < s.vmo.pageCount := by rwa [pageCount, grown.size_eq] at hi
    rw [slot_congr grown.metaPage_eq]
    by_contra hs
    obtain ⟨hc', hs'⟩ := grown.unowned i hi' hc hs
    exact hs' (h.owned i hi' hc')
  content := by rw [grown.contents_eq]; exact content

theorem write_wrote (h : s.Valid) (offset : Nat) (buf : List UInt8) :
    Wrote s offset buf 0 (write offset buf s) := by
  rw [write, Prog.bind_apply, Prog.get_apply]
  simp only
  split_ifs with past
  · exact .done h (by omega)
  · have wrote := writeLoop_wrote buf buf.length 0 offset h (by omega) (by omega)
    rwa [List.drop_zero] at wrote

theorem exec_write (h : Refines s a) (offset : Nat) (buf : List UInt8) :
    ∃ s', (VmoOp.write offset buf).exec s = .ok (FlatArray.exec a (.write offset buf)).1 s' ∧
      Extends s s' ∧ Refines s' (FlatArray.exec a (.write offset buf)).2 := by
  have wrote := write_wrote h.valid offset buf
  obtain ⟨k, _, content, ret⟩ := wrote.moved
  obtain ⟨r, hr, room⟩ := wrote.total h.room
  obtain ⟨hk, hrk⟩ := ret r _ hr
  have span : FlatArray.span a offset buf.length = k := by
    rw [FlatArray.span, h.length, hk]
  refine ⟨(write offset buf s).state, ?_, wrote.grown, h.grow wrote.grown room ?_⟩
  · simp only [VmoOp.exec, Prog.bind_apply, Prog.attempt]
    rw [hr]
    simp [FlatArray.exec, FlatArray.write, span, hrk]
  · rw [content, h.content]
    simp [FlatArray.exec, FlatArray.write, span]

theorem exec_commit (h : Refines s a) (offset : Nat) :
    ∃ s', (VmoOp.commit offset).exec s = .ok (FlatArray.exec a (.commit offset)).1 s' ∧
      Extends s s' ∧ Refines s' (FlatArray.exec a (.commit offset)).2 := by
  have grown := commitPage_extends h.valid (h.committable offset)
  by_cases lt : offset < s.vmo.size
  · obtain ⟨r, hr, room⟩ := commitPage_room h.valid lt (h.committable offset) h.room
    refine ⟨(commitPage offset s).state, ?_, grown.1, h.grow grown.1 room ?_⟩
    · simp only [VmoOp.exec, Prog.bind_apply, Prog.attempt]
      rw [hr]
      simp [FlatArray.exec, h.length, lt, Except.map]
    · rw [grown.2, h.content]
      rfl
  · have fails : commitPage offset s = .err .invalidArgs s := by
      simp [commitPage, Nat.le_of_not_lt lt]
    refine ⟨s, ?_, .refl h.valid, h⟩
    simp [VmoOp.exec, Prog.bind_apply, Prog.attempt, fails, FlatArray.exec, h.length, lt, Except.map]

/-- One operation: the caller sees what the array answers. -/
theorem exec_refines (h : Refines s a) (op : VmoOp) :
    ∃ s', op.exec s = .ok (FlatArray.exec a op).1 s' ∧ Extends s s' ∧
      Refines s' (FlatArray.exec a op).2 := by
  cases op with
  | read offset buf =>
    refine ⟨s, ?_, .refl h.valid, h⟩
    simp [VmoOp.exec, FlatArray.exec, read_eq, h.content]
  | write offset buf => exact exec_write h offset buf
  | commit offset => exact exec_commit h offset

theorem run_refines (h : Refines s a) (ops : List VmoOp) :
    ∃ s', runVmoOps ops s = .ok (FlatArray.run a ops).1 s' ∧ Extends s s' ∧
      Refines s' (FlatArray.run a ops).2 := by
  induction ops generalizing s a with
  | nil => exact ⟨s, rfl, .refl h.valid, h⟩
  | cons op ops ih =>
    obtain ⟨s₁, hop, grown₁, h₁⟩ := exec_refines h op
    obtain ⟨s₂, hops, grown₂, h₂⟩ := ih h₁
    refine ⟨s₂, ?_, grown₁.trans grown₂, h₂⟩
    simp [runVmoOps, Prog.bind_apply, hop, hops, FlatArray.run]

/-! ## From creation on -/

theorem pagesOf_eq {size : Nat} (h : size ≤ vmoMaxPages * pageSize) :
    pagesOf size = (size + 4095) / 4096 := by
  simp only [pagesOf, wsub, wadd, vmoMaxPages, pageSize] at *
  omega

theorem createWithSize_total {mm : Mm} {size k : Nat} (pos : 0 < size)
    (bound : pagesOf size ≤ vmoMaxPages)
    (frames : mm.CanAlloc .vmoData (max 1 (metaPagesNeeded (pagesOf size)) + k)) :
    ∃ v mm', createWithSize size mm = .ok v mm' ∧ mm'.CanAlloc .vmoData k := by
  obtain ⟨r, mm₁, hmeta, rest⟩ := createMeta_total 0 frames
  have none_over : ¬ pagesOf size > vmoMaxPages := by omega
  refine ⟨ofMeta mm₁.vmoIdCounter r (pagesOf size) (List.replicate (pagesOf size) none),
    { mm₁ with vmoIdCounter := wadd mm₁.vmoIdCounter 1 }, ?_, rest.congr ⟨rfl, rfl, rfl, rfl⟩⟩
  simp only [createWithSize, pos.ne', none_over, if_false, Prog.bind_apply, hmeta, newId]
  rfl

/-- A new object is a zero-filled array. -/
theorem createWithSize_refines {mm : Mm} (wf : mm.WF) {size : Nat} (pos : 0 < size)
    (bound : pagesOf size ≤ vmoMaxPages) (some_page : 0 < pagesOf size)
    (frames : mm.CanAlloc .vmoData (metaPagesNeeded (pagesOf size) + pagesOf size)) :
    ∃ v mm', createWithSize size mm = .ok v mm' ∧ v.size = pagesOf size * pageSize ∧
      Refines ⟨v, mm'⟩ (List.replicate (pagesOf size * pageSize) 0) := by
  have one : max 1 (metaPagesNeeded (pagesOf size)) = metaPagesNeeded (pagesOf size) := by
    simp only [metaPagesNeeded, slotsPerPage_eq]
    omega
  rw [← one] at frames
  obtain ⟨v, mm', ok, rest⟩ := createWithSize_total pos bound frames
  obtain ⟨valid, size_eq, committed, empty⟩ := createWithSize_valid wf ok
  have count : v.pageCount = pagesOf size := by
    rw [pageCount, size_eq, Nat.mul_div_cancel _ (by simp [pageSize])]
  refine ⟨v, mm', ok, size_eq, valid, ⟨?_, rest.le ?_⟩, fun i hi _ => empty i hi, ?_⟩
  · simp only [committed, ne_eq, List.replicate_eq_nil_iff]
    omega
  · refine (Finset.card_filter_le _ _).trans ?_
    simp [count]
  · rw [← size_eq]
    apply List.ext_getElem?
    intro x
    rw [contents_getElem?, List.getElem?_replicate]
    split_ifs with hx
    · rw [byteAt, empty _ (valid.backed.page_lt hx)]
    · rfl

end Vmo

/-- For every admitted size and every sequence of reads, writes and commits, with frames enough
for the metadata and all pages, the object answers as a zero-initialised array of whole pages, and
in every state reached a slot write changes nothing else in the metadata, also when it happens
right after the frame for it has been taken. -/
theorem vmo_refines_flat_array (mm : Mm) (wf : mm.WF) (size : Nat) (pos : 0 < size)
    (bound : size ≤ vmoMaxPages * pageSize)
    (frames : mm.CanAlloc .vmoData (metaPagesNeeded ((size + 4095) / 4096) + (size + 4095) / 4096)) :
    ∃ v mm', Vmo.createWithSize size mm = .ok v mm' ∧
      v.size = (size + 4095) / 4096 * 4096 ∧
      ∀ ops, ∃ s, runVmoOps ops ⟨v, mm'⟩ =
          .ok (FlatArray.run (List.replicate ((size + 4095) / 4096 * 4096) 0) ops).1 s ∧
        s.vmo.SlotWritesFramed s.mm.mem ∧
        ∀ pa, s.mm.Candidate pa → s.vmo.SlotWritesFramed (s.mm.claim .vmoData pa).mem := by
  have pages := Vmo.pagesOf_eq bound
  rw [← pages] at frames ⊢
  have at_most : Vmo.pagesOf size ≤ vmoMaxPages := by
    simp only [vmoMaxPages, pageSize] at *
    omega
  obtain ⟨v, mm', ok, size_eq, start⟩ :=
    Vmo.createWithSize_refines wf pos at_most (by omega) frames
  refine ⟨v, mm', ok, size_eq, fun ops => ?_⟩
  obtain ⟨s, hrun, _, refines⟩ := Vmo.run_refines start ops
  refine ⟨s, hrun, refines.valid.backed.laid.slotWritesFramed, fun pa cand => ?_⟩
  exact (refines.valid.backed.claim refines.valid.wf .vmoData cand).laid.slotWritesFramed

/-- The whole of what follows a two-page object on a fresh machine. -/
theorem vmo_refines_flat_array_boot :
    ∃ v mm', Vmo.createWithSize 5000 (Mm.boot 0x40200000 0x60000000) = .ok v mm' ∧
      v.size = 8192 ∧
      ∀ ops, ∃ s, runVmoOps ops ⟨v, mm'⟩ = .ok (FlatArray.run (List.replicate 8192 0) ops).1 s ∧
        s.vmo.SlotWritesFramed s.mm.mem ∧
        ∀ pa, s.mm.Candidate pa → s.vmo.SlotWritesFramed (s.mm.claim .vmoData pa).mem :=
  vmo_refines_flat_array (Mm.boot 0x40200000 0x60000000) ⟨by decide, by decide⟩ 5000 (by decide)
    (by decide) (Mm.boot_canAlloc (by decide) (by decide) (by decide))

end CapsuleOS
