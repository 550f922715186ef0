import CapsuleOS.Memory.VmoRefinement

/-!
# Windows of a VMO

A slice is a new object whose slots point at frames of its parent. The window is checked with one
wrapping addition; the copying loop then looks up the pages of the window in the parent's vector
of frames or, for an object over borrowed frames, in its slot table. `Formed` is what its
making gives a VMO (`createWithSize_formed`).
-/
namespace CapsuleOS

open Lib

namespace Vmo

/-- A whole number of pages, not above the limit, and a vector that is empty or as long. -/
structure Formed (v : Vmo) : Prop where
  size_eq : v.size = v.pageCount * pageSize
  bound : v.pageCount ≤ vmoMaxPages
  vector : v.committedPages = [] ∨ v.committedPages.length = v.pageCount

/-! ## New objects -/

section Formed

theorem ofMeta_formed {id pages : Nat} {parts : Nat × List (Option Nat)} {vec : List (Option Nat)}
    (bound : pages ≤ vmoMaxPages) (vector : vec = [] ∨ vec.length = pages) :
    (ofMeta id parts pages vec).Formed := by
  have count : (ofMeta id parts pages vec).pageCount = pages :=
    Nat.mul_div_cancel _ (by decide : 0 < pageSize)
  refine ⟨?_, ?_, ?_⟩ <;> rw [count]
  · rfl
  · exact bound
  · exact vector

theorem createWithSize_formed (size : Nat) (mm : Mm) :
    Prog.Post (createWithSize size) mm (fun v _ => v.Formed) (fun _ => True) := by
  unfold createWithSize
  split_ifs with zero
  · exact .throw trivial
  · simp only
    split_ifs with large
    · exact .throw trivial
    · refine (Prog.Post.any _ _).bind fun parts _ _ => ?_
      refine (Prog.Post.any _ _).bind fun id _ _ => .pure ?_
      exact ofMeta_formed (by omega) (Or.inr (by simp))

end Formed

/-! ## Looking up the window -/

/-- One round of the copying loop. -/
def copySlot (v child : Vmo) (start i : Nat) : MmM Unit := do
  let m ← Prog.get
  match v.sliceFrame m.mem (start + i) with
  | none => Prog.fault
  | some none => pure ()
  | some (some pa) =>
    Prog.modify fun m => m.setMem (writeSlot m.mem (child.pageSlot m.mem i) pa)

/-- The child before any slot is copied. -/
def sliceOf (v child : Vmo) (newId : Nat) : Vmo := { child with id := newId, parentId := some v.id }

/-- The pages of the parent that the copying loop looks up: none when an earlier check fails. -/
def slicedPages (v : Vmo) (offset size : Nat) (mm : Mm) : List Nat :=
  if offset % pageSize ≠ 0 ∨ size % pageSize ≠ 0 ∨ wadd offset size > v.size then []
  else match createWithSize size mm with
    | .ok _ _ => (List.range (size / pageSize)).map (offset / pageSize + ·)
    | _ => []

/-- The window lies in the object, as integers. -/
def Window (v : Vmo) (offset size : Nat) : Prop :=
  pageSize ∣ offset ∧ pageSize ∣ size ∧ offset + size ≤ v.size

/-- A call takes exactly the windows of the parent and looks up none but the parent's pages. -/
structure TakesWindow (v : Vmo) (mm : Mm) (newId offset size : Nat) : Prop where
  accepts : (∃ child mm', v.createChildSlice newId offset size mm = .ok child mm') ↔
    v.Window offset size
  rejects : ¬ v.Window offset size → ∃ e mm', v.createChildSlice newId offset size mm = .err e mm'
  inside : ∀ i ∈ v.slicedPages offset size mm, i < v.pageCount

/-- The end of the window is past the address space, wraps to an end inside the object, and the
window is not too large for a VMO. -/
def WrapsInside (v : Vmo) (offset size : Nat) : Prop :=
  pageSize ∣ offset ∧ pageSize ∣ size ∧ size ≤ vmoMaxPages * pageSize ∧
    2 ^ 64 ≤ offset + size ∧ offset + size - 2 ^ 64 ≤ v.size

section Slice

variable {v : Vmo} {mm : Mm} {newId offset size : Nat}

theorem createChildSlice_eq (v : Vmo) (newId offset size : Nat) :
    v.createChildSlice newId offset size =
      if offset % pageSize ≠ 0 ∨ size % pageSize ≠ 0 then Prog.throw .invalidArgs
      else if wadd offset size > v.size then Prog.throw .invalidArgs
      else do
        let child ← createWithSize size
        Prog.modify fun m => m.setMem (m.mem.store64 ((v.sliceOf child newId).metaPage + 24)
          (size / pageSize))
        Prog.forEach (v.copySlot (v.sliceOf child newId) (offset / pageSize))
          (List.range (size / pageSize))
        return v.sliceOf child newId := rfl

/-- A page of the parent is looked up without a fault. -/
theorem copySlot_returns (h : v.Formed) (child : Vmo) {start i : Nat}
    (inside : start + i < v.pageCount) (m : Mm) : ∃ m', v.copySlot child start i m = .ok () m' := by
  have found : ∃ entry, v.sliceFrame m.mem (start + i) = some entry := by
    unfold sliceFrame
    split_ifs with borrowed
    · exact ⟨_, rfl⟩
    · have full := h.vector.resolve_left fun nil => borrowed (List.isEmpty_iff.mpr nil)
      exact ⟨_, List.getElem?_eq_getElem (by omega)⟩
  obtain ⟨entry, found⟩ := found
  cases entry with
  | none => exact ⟨m, by simp [copySlot, Prog.bind_apply, found]⟩
  | some pa => exact ⟨_, by simp [copySlot, Prog.bind_apply, found]; rfl⟩

theorem pagesOf_window (al : pageSize ∣ size) (le : size ≤ vmoMaxPages * pageSize) :
    pagesOf size = size / pageSize := by
  obtain ⟨k, rfl⟩ := al
  rw [pagesOf_eq le]
  unfold pageSize
  omega

/-- Also at the very end of the address space, where the rounding wraps. -/
theorem pagesOf_large (al : pageSize ∣ size) (gt : vmoMaxPages * pageSize < size)
    (lt : size < 2 ^ 64) : vmoMaxPages < pagesOf size := by
  obtain ⟨k, rfl⟩ := al
  simp only [pagesOf, wsub, wadd, vmoMaxPages, pageSize] at *
  omega

/-- Neither check nor the creation of the child fails. -/
theorem createChildSlice_copies (newId : Nat) (alo : pageSize ∣ offset) (als : pageSize ∣ size)
    (pos : 0 < size) (fits : wadd offset size ≤ v.size) (small : size ≤ vmoMaxPages * pageSize)
    (frames : mm.CanAlloc .vmoData (max 1 (metaPagesNeeded (pagesOf size)))) :
    (∃ child m, v.createChildSlice newId offset size mm =
      (do
        Prog.forEach (v.copySlot child (offset / pageSize)) (List.range (size / pageSize))
        return child : MmM Vmo) m) ∧
      v.slicedPages offset size mm = (List.range (size / pageSize)).map (offset / pageSize + ·) := by
  have bound : pagesOf size ≤ vmoMaxPages := by
    rw [pagesOf_window als small]
    exact Nat.div_le_of_le_mul (by rwa [mul_comm] at small)
  obtain ⟨child, m, run, _⟩ := createWithSize_total pos bound (k := 0) (by simpa using frames)
  have aligned : ¬ (offset % pageSize ≠ 0 ∨ size % pageSize ≠ 0) := by
    rw [not_or, not_not, not_not]
    exact ⟨Nat.mod_eq_zero_of_dvd alo, Nat.mod_eq_zero_of_dvd als⟩
  have first : ¬ wadd offset size > v.size := by omega
  refine ⟨⟨v.sliceOf child newId, m.setMem (m.mem.store64 (child.metaPage + 24)
    (size / pageSize)), ?_⟩, ?_⟩
  · rw [createChildSlice_eq, if_neg aligned, if_neg first, Prog.bind_ok run]
    rfl
  · unfold slicedPages
    rw [if_neg (by tauto), run]

/-- One of the checks, of the window or of the size, rejects the call before any page is looked up. -/
theorem createChildSlice_refuses (newId : Nat)
    (bad : ¬ (pageSize ∣ offset ∧ pageSize ∣ size) ∨ v.size < wadd offset size ∨
      vmoMaxPages < pagesOf size) :
    (∃ e mm', v.createChildSlice newId offset size mm = .err e mm') ∧
      v.slicedPages offset size mm = [] := by
  rw [Nat.dvd_iff_mod_eq_zero, Nat.dvd_iff_mod_eq_zero] at bad
  rw [createChildSlice_eq]
  unfold slicedPages
  by_cases unaligned : offset % pageSize ≠ 0 ∨ size % pageSize ≠ 0
  · rw [if_pos unaligned, if_pos (by tauto)]
    exact ⟨⟨_, _, rfl⟩, rfl⟩
  by_cases outside : wadd offset size > v.size
  · rw [if_neg unaligned, if_pos outside, if_pos (by tauto)]
    exact ⟨⟨_, _, rfl⟩, rfl⟩
  have large : vmoMaxPages < pagesOf size := by
    rcases bad with bad | bad | bad
    · exact absurd (not_and_or.mp bad) unaligned
    · exact absurd bad outside
    · exact bad
  have refused : ∃ e, createWithSize size mm = .err e mm := by
    unfold createWithSize
    split_ifs with zero
    · exact ⟨_, rfl⟩
    · simp only
      rw [if_pos large]
      exact ⟨_, rfl⟩
  obtain ⟨e, run⟩ := refused
  rw [if_neg unaligned, if_neg outside, if_neg (by tauto), Prog.bind_err run, run]
  exact ⟨⟨_, _, rfl⟩, rfl⟩

/-- A window inside the object: every look-up finds a page. -/
theorem takesWindow_of_window (h : v.Formed) (pos : 0 < size) (lt : size < 2 ^ 64)
    (window : v.Window offset size)
    (frames : pagesOf size ≤ vmoMaxPages →
      mm.CanAlloc .vmoData (max 1 (metaPagesNeeded (pagesOf size)))) :
    v.TakesWindow mm newId offset size := by
  obtain ⟨alo, als, fits⟩ := window
  have limit : v.size ≤ vmoMaxPages * pageSize := by
    rw [h.size_eq]
    exact Nat.mul_le_mul_right _ h.bound
  have small : size ≤ vmoMaxPages * pageSize := by omega
  have no_wrap : wadd offset size = offset + size := by
    refine wadd_eq ?_
    simp only [vmoMaxPages, pageSize] at limit
    omega
  have pages_le : pagesOf size ≤ vmoMaxPages := by
    rw [pagesOf_window als small]
    exact Nat.div_le_of_le_mul (by rwa [mul_comm] at small)
  obtain ⟨⟨child, m, run⟩, looked⟩ := createChildSlice_copies (v := v) newId alo als pos
    (by omega) small (frames pages_le)
  have inside : ∀ i ∈ v.slicedPages offset size mm, i < v.pageCount := by
    intro i mem
    rw [looked, List.mem_map] at mem
    obtain ⟨j, mem, rfl⟩ := mem
    rw [List.mem_range] at mem
    obtain ⟨a, rfl⟩ := alo
    obtain ⟨b, rfl⟩ := als
    have size_eq := h.size_eq
    simp only [pageSize] at *
    omega
  refine ⟨iff_of_true ?_ ⟨alo, als, fits⟩, fun out => absurd ⟨alo, als, fits⟩ out, inside⟩
  obtain ⟨m', copied⟩ := Prog.forEach_returns (f := v.copySlot child (offset / pageSize))
    (fun i (mem : i ∈ List.range (size / pageSize)) u => copySlot_returns h child (inside _ (looked ▸ List.mem_map_of_mem mem)) u) m
  exact ⟨child, m', run.trans (Prog.bind_ok copied)⟩

/-- A call that a check refuses is right to be refused. -/
theorem takesWindow_of_refused (out : ¬ v.Window offset size)
    (bad : ¬ (pageSize ∣ offset ∧ pageSize ∣ size) ∨ v.size < wadd offset size ∨
      vmoMaxPages < pagesOf size) : v.TakesWindow mm newId offset size := by
  have refused : (∃ e mm', v.createChildSlice newId offset size mm = .err e mm') ∧ _ :=
    createChildSlice_refuses newId bad
  obtain ⟨⟨e, mm', run⟩, looked⟩ := refused
  refine ⟨iff_of_false ?_ out, fun _ => ⟨e, mm', run⟩, by simp [looked]⟩
  rintro ⟨child, u, ok⟩
  cases run.symm.trans ok

/-- A wrapping window passes the check, and the first page looked up is not one of the parent's. -/
theorem not_takesWindow_of_wraps (h : v.Formed) (pos : 0 < size) (lt : offset < 2 ^ 64)
    (wraps : v.WrapsInside offset size)
    (frames : mm.CanAlloc .vmoData (max 1 (metaPagesNeeded (pagesOf size)))) :
    ¬ v.TakesWindow mm newId offset size := by
  obtain ⟨alo, als, small, past, back⟩ := wraps
  have wrapped : wadd offset size = offset + size - 2 ^ 64 := by
    simp only [wadd, vmoMaxPages, pageSize] at *
    omega
  obtain ⟨_, looked⟩ := createChildSlice_copies (v := v) newId alo als pos (by omega) small frames
  intro takes
  have count : 0 < size / pageSize := Nat.div_pos (Nat.le_of_dvd pos als) (by decide)
  have first := takes.inside (offset / pageSize) (by
    rw [looked, List.mem_map]
    exact ⟨0, List.mem_range.mpr count, rfl⟩)
  have bound := h.bound
  simp only [vmoMaxPages, pageSize] at *
  omega

end Slice

end Vmo

/-- For every parent, offset and size, `create_child_slice` takes exactly the windows of the parent
and looks up no page outside it, unless the end of the window wraps to an end inside the parent. -/
theorem create_child_slice_windows (v : Vmo) (h : v.Formed) (mm : Mm) (newId offset size : Nat)
    (offset_lt : offset < 2 ^ 64) (size_lt : size < 2 ^ 64) (pos : 0 < size)
    (frames : Vmo.pagesOf size ≤ vmoMaxPages →
      mm.CanAlloc .vmoData (max 1 (metaPagesNeeded (Vmo.pagesOf size)))) :
    v.TakesWindow mm newId offset size ↔ ¬ v.WrapsInside offset size := by
  constructor
  · rintro takes wraps
    have bound : Vmo.pagesOf size ≤ vmoMaxPages := by
      rw [Vmo.pagesOf_window wraps.2.1 wraps.2.2.1]
      exact Nat.div_le_of_le_mul (by rw [mul_comm]; exact wraps.2.2.1)
    exact Vmo.not_takesWindow_of_wraps h pos offset_lt wraps (frames bound) takes
  · intro inside
    by_cases window : v.Window offset size
    · exact Vmo.takesWindow_of_window h pos size_lt window frames
    · refine Vmo.takesWindow_of_refused window ?_
      by_cases aligned : pageSize ∣ offset ∧ pageSize ∣ size
      · by_cases small : size ≤ vmoMaxPages * pageSize
        · -- the sum is out of the object, whether or not it wraps
          refine Or.inr (Or.inl ?_)
          have past : v.size < offset + size := by
            by_contra le
            exact window ⟨aligned.1, aligned.2, by omega⟩
          by_cases wraps : 2 ^ 64 ≤ offset + size
          · have beyond : v.size < offset + size - 2 ^ 64 := by
              by_contra le
              exact inside ⟨aligned.1, aligned.2, small, wraps, by omega⟩
            have wrapped : wadd offset size = offset + size - 2 ^ 64 := by
              unfold wadd
              omega
            omega
          · rw [wadd_eq (by omega)]
            exact past
        · exact Or.inr (Or.inr (Vmo.pagesOf_large aligned.2 (by omega) size_lt))
      · exact Or.inl aligned

/-- A two-page object, the first one made on a fresh machine. -/
def Vmo.twoPages : Vmo := Vmo.ofMeta 1 (0x40200000, List.replicate 8 none) 2 [none, none]

theorem Vmo.twoPages_formed : Vmo.twoPages.Formed :=
  (createWithSize_formed 8192 (Mm.boot 0x40200000 0x60000000)).ok Vmo.twoPages _ rfl

/-- The second page of it. -/
theorem create_child_slice_windows_second :
    Vmo.twoPages.TakesWindow (Mm.boot 0x40201000 0x60000000) 3048 4096 4096 ↔
      ¬ Vmo.twoPages.WrapsInside 4096 4096 :=
  create_child_slice_windows Vmo.twoPages Vmo.twoPages_formed (Mm.boot 0x40201000 0x60000000) 3048
    4096 4096 (by decide) (by decide) (by decide)
    fun _ => Mm.boot_canAlloc (by decide) (by decide) (by decide)

/-- A window of three pages that starts on the last page of the address space ends, after wrapping,
at the end of the two-page object: it is not refused. -/
theorem create_child_slice_wrapped :
    (Mm.boot 0x40201000 0x60000000).CanAlloc .vmoData 9 ∧
      ¬ Vmo.twoPages.TakesWindow (Mm.boot 0x40201000 0x60000000) 3048 (2 ^ 64 - 4096) 12288 := by
  refine ⟨Mm.boot_canAlloc (by decide) (by decide) (by decide), ?_⟩
  refine Vmo.not_takesWindow_of_wraps Vmo.twoPages_formed (by decide) (by decide) ?_
    (Mm.boot_canAlloc (by decide) (by decide) (by decide))
  exact ⟨by decide, by decide, by decide, by decide, by decide⟩

end CapsuleOS
