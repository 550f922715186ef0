import CapsuleOS.Memory.Vmo

/-!
# Layout of the slot table

`slotAddr` gives the address of a slot from the list of metadata pages alone. It agrees with the
address that the code computes through the pointer table, and the sixteen bytes of a slot meet
neither the header, nor the pointer table, nor another slot.
-/
namespace CapsuleOS

open Lib

/-- Two different page-aligned frames do not overlap. -/
theorem page_disjoint {p q : Nat} (hp : pageSize ∣ p) (hq : pageSize ∣ q) (ne : p ≠ q) :
    p + pageSize ≤ q ∨ q + pageSize ≤ p := by
  obtain ⟨a, rfl⟩ := hp
  obtain ⟨b, rfl⟩ := hq
  unfold pageSize at *
  omega

theorem slotsPerPage_eq : slotsPerPage = 249 := rfl

theorem paTableBase_eq : paTableBase = 4032 := rfl
theorem readSlot_sameOn {m m' : Mem} {a : Nat} (h : m.SameOn m' a slotSize) :
    readSlot m' a = readSlot m a := by
  have tag := (h.mono le_rfl (by simp [slotSize]) : m.SameOn m' a 8).load64
  have value := (h.mono (by omega) (by simp [slotSize]) : m.SameOn m' (a + 8) 8).load64
  rw [readSlot, readSlot, tag, value]

theorem readSlot_writeSlot {m : Mem} {a pa : Nat} (h : pa < 2 ^ 64) :
    readSlot (writeSlot m a pa) a = some pa := by
  have tag : (writeSlot m a pa).load64 a = 1 := by
    have same : (m.store64 a 1).SameOn (writeSlot m a pa) a 8 := Mem.store64_sameOn (by omega)
    rw [same.load64, Mem.load64_store64_of_lt (by norm_num)]
  have value : (writeSlot m a pa).load64 (a + 8) = pa := Mem.load64_store64_of_lt h
  simp [readSlot, tag, value]

theorem writeSlot_sameOn {m : Mem} {a pa b n : Nat} (h : b + n ≤ a ∨ a + slotSize ≤ b) :
    m.SameOn (writeSlot m a pa) b n := by
  simp only [slotSize] at h
  exact (Mem.store64_sameOn (by omega)).trans (Mem.store64_sameOn (by omega))

namespace Vmo

/-- The metadata pages, in the order of the slots they hold. -/
def metaFrames (v : Vmo) : List Nat := v.metaPage :: Cells.occupants v.extraMetaPages

def slotAddr (v : Vmo) (i : Nat) : Nat :=
  v.metaFrames.getD (i / slotsPerPage) 0 + (headerSize + i % slotsPerPage * slotSize)

/-- The metadata of `v` is complete and the pointer table in memory agrees with it. -/
structure Laid (v : Vmo) (m : Mem) : Prop where
  size_eq : v.size = v.pageCount * pageSize
  bound : v.pageCount ≤ vmoMaxPages
  meta_length : v.metaFrames.length = max 1 (metaPagesNeeded v.pageCount)
  nodup : v.metaFrames.Nodup
  aligned : ∀ p ∈ v.metaFrames, pageSize ∣ p
  table : ∀ j p, (Cells.occupants v.extraMetaPages)[j]? = some p →
    m.load64 (v.metaPage + (paTableBase + j * 8)) = p

variable {v : Vmo} {m m' : Mem} {i j : Nat}

theorem metaIdx_lt (h : v.Laid m) (hi : i < v.pageCount) :
    i / slotsPerPage < v.metaFrames.length := by
  have len := h.meta_length
  simp only [metaPagesNeeded, slotsPerPage_eq] at *
  omega

theorem getD_metaFrames (h : i < v.metaFrames.length) :
    v.metaFrames.getD i 0 = v.metaFrames[i] := by simp [List.getD, h]

theorem metaPage_mem (v : Vmo) : v.metaPage ∈ v.metaFrames := by simp [metaFrames]

/-- The code finds the slot where the layout puts it. -/
theorem pageSlot_eq (h : v.Laid m) (hi : i < v.pageCount) : v.pageSlot m i = v.slotAddr i := by
  have lt := metaIdx_lt h hi
  unfold pageSlot slotPtr slotAddr
  by_cases zero : i / slotsPerPage = 0
  · simp [zero, metaFrames]
  · obtain ⟨k, hk⟩ : ∃ k, i / slotsPerPage = k + 1 := ⟨_, (Nat.succ_pred zero).symm⟩
    rw [hk] at lt ⊢
    have inside : k < (Cells.occupants v.extraMetaPages).length := by
      simpa [metaFrames] using lt
    have entry := h.table k _ (List.getElem?_eq_getElem inside)
    simp [entry, metaFrames, inside]

theorem slotAddr_page (h : v.Laid m) (hi : i < v.pageCount) :
    ∃ p ∈ v.metaFrames, v.slotAddr i = p + (headerSize + i % slotsPerPage * slotSize) := by
  have lt := metaIdx_lt h hi
  exact ⟨_, List.getElem_mem lt, by rw [slotAddr, getD_metaFrames lt]⟩

theorem slotAddr_disjoint (h : v.Laid m) (hi : i < v.pageCount) (hj : j < v.pageCount)
    (ne : i ≠ j) : v.slotAddr i + slotSize ≤ v.slotAddr j ∨ v.slotAddr j + slotSize ≤ v.slotAddr i := by
  have hi' := metaIdx_lt h hi
  have hj' := metaIdx_lt h hj
  unfold slotAddr
  rw [getD_metaFrames hi', getD_metaFrames hj']
  by_cases same : i / slotsPerPage = j / slotsPerPage
  · simp only [same, headerSize, slotSize, slotsPerPage_eq] at *
    omega
  · have frames_ne : v.metaFrames[i / slotsPerPage] ≠ v.metaFrames[j / slotsPerPage] :=
      fun eq => same ((h.nodup.getElem_inj_iff).mp eq)
    have apart := page_disjoint (h.aligned _ (List.getElem_mem hi'))
      (h.aligned _ (List.getElem_mem hj')) frames_ne
    simp only [headerSize, slotSize, slotsPerPage_eq, pageSize] at *
    omega

/-- A slot lies between the header and the pointer table of its page, or on another page. -/
theorem slotAddr_bounds (h : v.Laid m) (hi : i < v.pageCount) {q : Nat} (hq : q ∈ v.metaFrames) :
    q + pageSize ≤ v.slotAddr i ∨ v.slotAddr i + slotSize ≤ q ∨
      (q + headerSize ≤ v.slotAddr i ∧ v.slotAddr i + slotSize ≤ q + paTableBase) := by
  obtain ⟨p, hp, eq⟩ := slotAddr_page h hi
  have apart : p ≠ q → _ := page_disjoint (h.aligned p hp) (h.aligned q hq)
  simp only [headerSize, slotSize, slotsPerPage_eq, pageSize, paTableBase_eq] at *
  omega

/-- Both memories hold the same metadata pages. -/
def MetaSame (v : Vmo) (m m' : Mem) : Prop := ∀ p ∈ v.metaFrames, m.SameOn m' p pageSize

theorem Laid.of_table (h : v.Laid m) (same : m.SameOn m' (v.metaPage + paTableBase) paTableSize) :
    v.Laid m' := by
  refine { h with table := fun j p hj => ?_ }
  have lt := (List.getElem?_eq_some_iff.mp hj).choose
  have len := h.meta_length
  have bound := h.bound
  have entry : m.SameOn m' (v.metaPage + (paTableBase + j * 8)) 8 := by
    refine same.mono (by omega) ?_
    simp only [metaFrames, List.length_cons, metaPagesNeeded, slotsPerPage_eq, vmoMaxPages,
      paTableSize] at *
    omega
  rw [entry.load64]
  exact h.table j p hj

theorem Laid.of_meta (h : v.Laid m) (same : v.MetaSame m m') : v.Laid m' :=
  h.of_table ((same _ v.metaPage_mem).mono (by omega) (by simp [paTableBase, pageSize, paTableSize]))

theorem slot_eq (h : v.Laid m) (hi : i < v.pageCount) : v.slot m i = readSlot m (v.slotAddr i) := by
  rw [slot, pageSlot_eq h hi]

theorem slot_of_meta (h : v.Laid m) (same : v.MetaSame m m') (hi : i < v.pageCount) :
    v.slot m' i = v.slot m i := by
  rw [slot_eq h hi, slot_eq (h.of_meta same) hi]
  obtain ⟨p, hp, eq⟩ := slotAddr_page h hi
  refine readSlot_sameOn ((same p hp).mono (by omega) ?_)
  simp only [eq, headerSize, slotSize, slotsPerPage_eq, pageSize]
  omega

/-! ## Slot writes -/

variable {pa : Nat}

theorem writeSlot_header (h : v.Laid m) (hi : i < v.pageCount) :
    m.SameOn (writeSlot m (v.pageSlot m i) pa) v.metaPage headerSize := by
  rw [pageSlot_eq h hi]
  have := slotAddr_bounds h hi v.metaPage_mem
  exact writeSlot_sameOn (by simp only [pageSize, headerSize] at *; omega)

theorem writeSlot_table (h : v.Laid m) (hi : i < v.pageCount) (pa : Nat) :
    m.SameOn (writeSlot m (v.pageSlot m i) pa) (v.metaPage + paTableBase) paTableSize := by
  rw [pageSlot_eq h hi]
  have := slotAddr_bounds h hi v.metaPage_mem
  exact writeSlot_sameOn (by simp only [pageSize, paTableBase_eq, paTableSize] at *; omega)

theorem writeSlot_other (h : v.Laid m) (hi : i < v.pageCount) (hj : j < v.pageCount) (ne : j ≠ i) :
    m.SameOn (writeSlot m (v.pageSlot m i) pa) (v.pageSlot m j) slotSize := by
  rw [pageSlot_eq h hi, pageSlot_eq h hj]
  exact writeSlot_sameOn (slotAddr_disjoint h hj hi ne)

theorem slot_writeSlot (h : v.Laid m) (hi : i < v.pageCount) (hj : j < v.pageCount)
    (hpa : pa < 2 ^ 64) :
    v.slot (writeSlot m (v.pageSlot m i) pa) j = if j = i then some pa else v.slot m j := by
  have laid' := h.of_table (writeSlot_table h hi pa)
  rw [slot_eq laid' hj, slot_eq h hj]
  split_ifs with eq
  · rw [eq, ← pageSlot_eq h hi, readSlot_writeSlot hpa]
  · rw [← pageSlot_eq h hj]
    exact readSlot_sameOn (writeSlot_other h hi hj eq)

/-! ## Writes to the header -/

/-- A word of the header, such as the count of committed pages, is no part of the table. -/
theorem Laid.store_header (h : v.Laid m) {o c : Nat} (ho : o + 8 ≤ headerSize) :
    v.Laid (m.store64 (v.metaPage + o) c) :=
  h.of_table (Mem.store64_sameOn (by simp only [headerSize, paTableBase_eq] at *; omega))

theorem slot_store_header (h : v.Laid m) (hj : j < v.pageCount) {o c : Nat}
    (ho : o + 8 ≤ headerSize) : v.slot (m.store64 (v.metaPage + o) c) j = v.slot m j := by
  rw [slot_eq (h.store_header ho) hj, slot_eq h hj]
  have bounds := slotAddr_bounds h hj v.metaPage_mem
  refine readSlot_sameOn (Mem.store64_sameOn ?_)
  simp only [headerSize, slotSize, pageSize, paTableBase_eq] at *
  omega

end Vmo

end CapsuleOS
