import CapsuleOS.Memory.VmoArray

/-!
# Creation of a VMO

`MetaBuilt` is the invariant of the loop that allocates the metadata pages: the pages so far are
fresh, distinct, entered in the pointer table, and their slots are still zero. From it follows that
a new object is backed, owns its (empty) vector and reads as zero everywhere.
-/
namespace CapsuleOS

open Lib

namespace Vmo

/-- The array of extra metadata pages with the first cells taken. -/
def metaCells (pages : List Nat) : List (Option Nat) :=
  pages.map some ++ List.replicate (8 - pages.length) none

theorem occupants_metaCells (pages : List Nat) : Cells.occupants (metaCells pages) = pages := by
  simp [metaCells, Cells.occupants, List.filterMap_map]

theorem metaCells_set {pages : List Nat} {pa : Nat} (h : pages.length < 8) :
    (metaCells pages).set pages.length (some pa) = metaCells (pages ++ [pa]) := by
  have count : 8 - pages.length = (7 - pages.length) + 1 := by omega
  simp [metaCells, count, List.replicate_succ]

/-- Metadata pages as far as they have been allocated. -/
structure MetaBuilt (mm : Mm) (metaPa : Nat) (extra : List Nat) : Prop where
  wf : mm.WF
  nodup : (metaPa :: extra).Nodup
  aligned : ∀ p ∈ metaPa :: extra, pageSize ∣ p
  spent : ∀ p ∈ metaPa :: extra, mm.Spent p
  table : ∀ j p, extra[j]? = some p → mm.mem.load64 (metaPa + (paTableBase + j * 8)) = p
  zero : ∀ p ∈ metaPa :: extra, ∀ x, p + headerSize ≤ x → x < p + paTableBase → mm.mem x = 0

theorem writeHeader_sameOn {m : Mem} {base pages committed mpn b n : Nat}
    (h : b + n ≤ base ∨ base + headerSize ≤ b) :
    m.SameOn (writeHeader m base pages committed mpn) b n := by
  simp only [headerSize] at h
  unfold writeHeader
  exact (((((Mem.store64_sameOn (by omega)).trans (Mem.store64_sameOn (by omega))).trans
    (Mem.store64_sameOn (by omega))).trans (Mem.store64_sameOn (by omega))).trans
    (Mem.store64_sameOn (by omega))).trans (Mem.store64_sameOn (by omega))

variable {mm : Mm} {metaPa : Nat} {extra : List Nat}

/-- The first metadata page, with its header. -/
theorem MetaBuilt.start (wf : mm.WF) (cand : mm.Candidate metaPa) (pages committed mpn : Nat) :
    MetaBuilt ((mm.claim .vmoData metaPa).setMem
      (writeHeader (mm.claim .vmoData metaPa).mem metaPa pages committed mpn)) metaPa [] where
  wf := (wf.claim cand).setMem _
  nodup := by simp
  aligned := by simpa using cand.aligned wf
  spent := by simpa using mm.spent_claim_self .vmoData metaPa
  table := by simp
  zero := by
    intro p hp x lo hi
    have hp : p = metaPa := by simpa using hp
    subst hp
    have same : (mm.claim .vmoData p).mem.SameOn
        (writeHeader (mm.claim .vmoData p).mem p pages committed mpn) x 1 :=
      writeHeader_sameOn (Or.inr lo)
    rw [Mm.setMem_mem, same x le_rfl (by omega)]
    exact Mem.clear_apply (by simp only [headerSize] at lo; omega)
      (by simp only [paTableBase_eq] at hi; omega)

/-- One more metadata page. -/
theorem MetaBuilt.grow (h : MetaBuilt mm metaPa extra) {pa : Nat} (cand : mm.Candidate pa)
    (room : extra.length < 8) :
    MetaBuilt ((mm.claim .vmoData pa).setMem
      ((mm.claim .vmoData pa).mem.store64 (metaPa + (paTableBase + extra.length * 8)) pa))
      metaPa (extra ++ [pa]) := by
  have al := cand.aligned h.wf
  have fresh : ∀ p ∈ metaPa :: extra, p ≠ pa := fun p hp => cand.not_spent (h.spent p hp)
  have base := h.aligned metaPa (by simp)
  have mem_cases : ∀ p ∈ metaPa :: (extra ++ [pa]), p ∈ metaPa :: extra ∨ p = pa := by
    intro p hp
    simp only [List.mem_cons, List.mem_append, List.not_mem_nil, or_false] at hp ⊢
    tauto
  refine ⟨(h.wf.claim cand).setMem _, ?_, ?_, ?_, ?_, ?_⟩
  · have perm : (metaPa :: (extra ++ [pa])).Perm (pa :: metaPa :: extra) :=
      List.perm_append_singleton pa (metaPa :: extra)
    rw [perm.nodup_iff, List.nodup_cons]
    exact ⟨fun hp => fresh pa hp rfl, h.nodup⟩
  · intro p hp
    rcases mem_cases p hp with old | rfl
    · exact h.aligned p old
    · exact al
  · intro p hp
    rcases mem_cases p hp with old | rfl
    · exact (h.spent p old).claim .vmoData cand
    · exact mm.spent_claim_self .vmoData p
  · intro j p hj
    by_cases last : j = extra.length
    · subst last
      rw [List.getElem?_append_right le_rfl] at hj
      simp at hj
      subst hj
      exact Mem.load64_store64_of_lt cand.lt_word
    · have lt : j < (extra ++ [pa]).length := (List.getElem?_eq_some_iff.mp hj).choose
      have lt' : j < extra.length := by simp at lt; omega
      rw [List.getElem?_append_left lt'] at hj
      have kept : (mm.claim .vmoData pa).mem.SameOn ((mm.claim .vmoData pa).mem.store64
          (metaPa + (paTableBase + extra.length * 8)) pa) (metaPa + (paTableBase + j * 8)) 8 :=
        Mem.store64_sameOn (by omega)
      have same := claim_sameOn .vmoData h.wf cand (h.spent metaPa (by simp)) base
      rw [Mm.setMem_mem, kept.load64, (same.mono (by omega) (by simp only [pageSize, paTableBase_eq]; omega) :
        mm.mem.SameOn _ (metaPa + (paTableBase + j * 8)) 8).load64]
      exact h.table j p hj
  · intro p hp x lo hi
    have apart : metaPa ≠ p → metaPa + pageSize ≤ p ∨ p + pageSize ≤ metaPa := by
      rcases mem_cases p hp with old | rfl
      · exact page_disjoint base (h.aligned p old)
      · exact page_disjoint base al
    have kept : (mm.claim .vmoData pa).mem.SameOn ((mm.claim .vmoData pa).mem.store64
        (metaPa + (paTableBase + extra.length * 8)) pa) x 1 := by
      refine Mem.store64_sameOn ?_
      simp only [headerSize, paTableBase_eq, pageSize] at *
      omega
    rw [Mm.setMem_mem, kept x le_rfl (by omega)]
    simp only [headerSize, paTableBase_eq] at lo hi
    rcases mem_cases p hp with old | rfl
    · rw [claim_sameOn .vmoData h.wf cand (h.spent p old) (h.aligned p old) x (by omega)
        (by simp only [pageSize]; omega)]
      exact h.zero p old x lo hi
    · exact Mem.clear_apply (by omega) (by omega)

/-! ## The allocation loop -/

theorem allocVmoMeta_ok (wf : mm.WF) {pa : Nat} {mm' : Mm} (h : allocVmoMeta mm = .ok pa mm') :
    mm.Candidate pa ∧ mm' = mm.claim .vmoData pa := by
  have result := allocPage_result .vmoData mm wf.end_lt
  rw [allocVmoMeta] at h
  rw [h] at result
  cases result with
  | taken _ cand => exact ⟨cand, rfl⟩

theorem addMetaPages_cons (i : Nat) (is : List Nat) (cells : List (Option Nat)) {pa : Nat}
    {mm' : Mm} (h : allocVmoMeta mm = .ok pa mm') :
    addMetaPages metaPa (i :: is) cells mm = addMetaPages metaPa is (cells.set (i - 1) (some pa))
      (mm'.setMem (mm'.mem.store64 (metaPa + (paTableBase + (i - 1) * 8)) pa)) := by
  simp [addMetaPages, Prog.bind_apply, Prog.attempt, h]

/-- When the loop returns, the metadata is complete. -/
theorem addMetaPages_built {n : Nat} (h : MetaBuilt mm metaPa extra) (room : extra.length + n ≤ 8)
    {cells : List (Option Nat)} {mm' : Mm}
    (ok : addMetaPages metaPa (List.range' (extra.length + 1) n) (metaCells extra) mm =
      .ok cells mm') :
    ∃ more, cells = metaCells (extra ++ more) ∧ more.length = n ∧
      MetaBuilt mm' metaPa (extra ++ more) := by
  induction n generalizing mm extra with
  | zero =>
    cases ok
    exact ⟨[], by simp, rfl, by simpa using h⟩
  | succ n ih =>
    rw [List.range'_succ] at ok
    cases halloc : allocVmoMeta mm with
    | ok pa mm₁ =>
      obtain ⟨cand, rfl⟩ := allocVmoMeta_ok h.wf halloc
      rw [addMetaPages_cons _ _ _ halloc, Nat.add_sub_cancel, metaCells_set (by omega)] at ok
      have grown := h.grow cand (by omega)
      have len : (extra ++ [pa]).length = extra.length + 1 := by simp
      rw [← len] at ok
      obtain ⟨more, hcells, hlen, built⟩ := ih grown (by simp; omega) ok
      refine ⟨pa :: more, ?_, by simp [hlen], ?_⟩
      · simpa using hcells
      · simpa using built
    | err e mm₁ =>
      simp only [addMetaPages, Prog.bind_apply, Prog.attempt, halloc] at ok
      cases hdrop : dropPhysPages (Cells.occupants (metaCells extra)) mm₁ with
      | ok u mm₂ =>
        rw [hdrop] at ok
        cases hdrop' : dropPhysPage metaPa mm₂ <;> simp [hdrop'] at ok
      | err e mm₂ => simp [hdrop] at ok
      | fault mm₂ => simp [hdrop] at ok
    | fault mm₁ => simp [addMetaPages, Prog.attempt, halloc] at ok

/-- With frames for the loop and `k` more, it returns and leaves `k`. -/
theorem addMetaPages_total {k : Nat} (metaPa : Nat) (is : List Nat) (cells : List (Option Nat))
    (frames : mm.CanAlloc .vmoData (is.length + k)) :
    ∃ cells' mm', addMetaPages metaPa is cells mm = .ok cells' mm' ∧ mm'.CanAlloc .vmoData k := by
  induction is generalizing mm cells with
  | nil => exact ⟨cells, mm, rfl, by simpa using frames⟩
  | cons i is ih =>
    rw [List.length_cons, Nat.add_right_comm] at frames
    obtain ⟨pa, mm₁, halloc, rest⟩ := frames
    rw [addMetaPages_cons i is cells halloc]
    exact ih _ (rest.congr ⟨rfl, rfl, rfl, rfl⟩)

/-! ## The new object -/

theorem metaPagesNeeded_le {pages : Nat} (h : pages ≤ vmoMaxPages) : metaPagesNeeded pages ≤ 9 := by
  simp only [metaPagesNeeded, slotsPerPage_eq, vmoMaxPages] at *
  omega

theorem createMeta_built (wf : mm.WF) {pages committed : Nat} (bound : pages ≤ vmoMaxPages)
    {r : Nat × List (Option Nat)} {mm' : Mm} (ok : createMeta pages committed mm = .ok r mm') :
    ∃ extra, r.2 = metaCells extra ∧ extra.length = metaPagesNeeded pages - 1 ∧
      MetaBuilt mm' r.1 extra := by
  have needed := metaPagesNeeded_le bound
  obtain ⟨pa, mm₁, halloc, ok⟩ := Prog.bind_eq_ok ok
  obtain ⟨cand, rfl⟩ := allocVmoMeta_ok wf halloc
  obtain ⟨_, mm₂, hmod, ok⟩ := Prog.bind_eq_ok ok
  cases hmod
  obtain ⟨cells, mm₃, hadd, ok⟩ := Prog.bind_eq_ok ok
  cases ok
  have built := MetaBuilt.start wf cand pages committed (metaPagesNeeded pages)
  have cells_nil : metaCells [] = List.replicate 8 none := rfl
  obtain ⟨more, hcells, hlen, built'⟩ :=
    addMetaPages_built (n := metaPagesNeeded pages - 1) built (by simp; omega)
      (by rw [cells_nil]; exact hadd)
  exact ⟨more, by simpa using hcells, hlen, by simpa using built'⟩

theorem createMeta_total {pages k : Nat} (committed : Nat)
    (frames : mm.CanAlloc .vmoData (max 1 (metaPagesNeeded pages) + k)) :
    ∃ r mm', createMeta pages committed mm = .ok r mm' ∧ mm'.CanAlloc .vmoData k := by
  have count : max 1 (metaPagesNeeded pages) + k =
      ((List.range' 1 (metaPagesNeeded pages - 1)).length + k) + 1 := by simp; omega
  rw [count] at frames
  obtain ⟨pa, mm₁, halloc, rest⟩ := frames
  have rest₁ : (mm₁.setMem (writeHeader mm₁.mem pa pages committed
      (metaPagesNeeded pages))).CanAlloc .vmoData _ := rest.congr ⟨rfl, rfl, rfl, rfl⟩
  obtain ⟨cells, mm₂, hadd, rest'⟩ := addMetaPages_total pa
    (List.range' 1 (metaPagesNeeded pages - 1)) (List.replicate 8 none) rest₁
  refine ⟨(pa, cells), mm₂, ?_, rest'⟩
  simp only [createMeta, Prog.bind_apply, allocVmoMeta, halloc, Prog.modify_apply, hadd]
  rfl

/-- Over complete metadata whose slots are zero, any object of that size is backed and empty. -/
theorem MetaBuilt.backed (h : MetaBuilt mm metaPa extra) {v : Vmo} (hmeta : v.metaPage = metaPa)
    (hextra : v.extraMetaPages = metaCells extra) (size : v.size = v.pageCount * pageSize)
    (bound : v.pageCount ≤ vmoMaxPages) (len : extra.length = metaPagesNeeded v.pageCount - 1) :
    v.Backed mm ∧ ∀ i < v.pageCount, v.slot mm.mem i = none := by
  have frames : v.metaFrames = metaPa :: extra := by
    rw [metaFrames, hextra, occupants_metaCells, hmeta]
  have laid : v.Laid mm.mem := by
    refine ⟨size, bound, ?_, frames ▸ h.nodup, frames ▸ h.aligned, fun j p hj => ?_⟩
    · rw [frames, List.length_cons, len]
      omega
    · rw [hextra, occupants_metaCells] at hj
      rw [hmeta]
      exact h.table j p hj
  have empty : ∀ i < v.pageCount, v.slot mm.mem i = none := by
    intro i hi
    obtain ⟨p, hp, addr⟩ := slotAddr_page laid hi
    rw [slot_eq laid hi, readSlot, if_pos]
    have zero : mm.mem.load (v.slotAddr i) 8 = List.replicate 8 0 := by
      apply List.ext_getElem (by simp)
      intro j hj _
      rw [Mem.load_getElem, List.getElem_replicate]
      rw [Mem.load_length] at hj
      refine h.zero p (frames ▸ hp) _ (by rw [addr]; omega) ?_
      simp only [addr, headerSize, slotSize, slotsPerPage_eq, paTableBase_eq]
      omega
    rw [Mem.load64, zero]
    rfl
  have no_frame : ∀ i < v.pageCount, ∀ p, v.slot mm.mem i ≠ some p := by
    intro i hi p hp
    rw [empty i hi] at hp
    cases hp
  exact ⟨⟨laid, fun p hp => h.spent p (frames ▸ hp), fun i hi p hp => absurd hp (no_frame i hi p),
    fun i hi p hp => absurd hp (no_frame i hi p), fun i hi p hp => absurd hp (no_frame i hi p),
    fun i hi j _ p hp _ => absurd hp (no_frame i hi p)⟩, empty⟩

/-- A returned object: fresh, backed, of the size asked for, without frames. -/
theorem createWithSize_valid (wf : mm.WF) {size : Nat} {v : Vmo} {mm' : Mm}
    (ok : createWithSize size mm = .ok v mm') :
    VmoState.Valid ⟨v, mm'⟩ ∧ v.size = pagesOf size * pageSize ∧
      v.committedPages = List.replicate (pagesOf size) none ∧
      ∀ i < v.pageCount, v.slot mm'.mem i = none := by
  simp only [createWithSize] at ok
  split_ifs at ok with zero large
  · cases ok
  · cases ok
  obtain ⟨r, mm₁, hmeta, ok⟩ := Prog.bind_eq_ok ok
  obtain ⟨extra, hextra, hlen, built⟩ := createMeta_built wf (by omega) hmeta
  obtain ⟨vid, mm₂, hid, ok⟩ := Prog.bind_eq_ok ok
  cases hid
  cases ok
  have built' : MetaBuilt { mm₁ with vmoIdCounter := wadd mm₁.vmoIdCounter 1 } r.1 extra :=
    ⟨⟨built.wf.end_lt, built.wf.aligned⟩, built.nodup, built.aligned, built.spent, built.table,
      built.zero⟩
  have count : pagesOf size * pageSize / pageSize = pagesOf size :=
    Nat.mul_div_cancel _ (by simp [pageSize])
  obtain ⟨backed, empty⟩ := built'.backed
    (v := ofMeta mm₁.vmoIdCounter r (pagesOf size) (List.replicate (pagesOf size) none)) rfl hextra
    (by simp only [pageCount, ofMeta, count]) (by simp only [pageCount, ofMeta, count]; omega)
    (by simp only [pageCount, ofMeta, count]; exact hlen)
  refine ⟨⟨built'.wf, backed, ⟨Or.inr ?_, ?_⟩⟩, rfl, rfl, empty⟩
  · simp [pageCount, ofMeta, count]
  · intro i p hp
    simp [ofMeta, List.getElem?_replicate] at hp

end Vmo

end CapsuleOS
