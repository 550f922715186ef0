import CapsuleOS.Memory.VmoLayout

/-!
# Backing frames of a VMO

`Backed` collects what makes the slot table of a VMO meaningful: the metadata is laid out, and the
frames in the slots are pages of their own, distinct from each other, from the metadata and from
everything the allocator still has to hand out. `Owns` relates the vector of owned frames to the
slot table. `byteAt` is then the content of the object, and the lemmas say what a commit and the
store of one chunk do to it.
-/
namespace CapsuleOS

open Lib

namespace Vmo

/-- The byte of the object at an offset, through the slot table; absent pages read as zero. -/
def byteAt (v : Vmo) (m : Mem) (x : Nat) : UInt8 :=
  match v.slot m (x / pageSize) with
  | some p => m (p + x % pageSize)
  | none => 0

/-- The content of the object. -/
def contents (v : Vmo) (m : Mem) : List UInt8 := (List.range v.size).map (v.byteAt m)

structure Backed (v : Vmo) (mm : Mm) : Prop where
  laid : v.Laid mm.mem
  meta_spent : ∀ p ∈ v.metaFrames, mm.Spent p
  frame_aligned : ∀ i < v.pageCount, ∀ p, v.slot mm.mem i = some p → pageSize ∣ p
  frame_spent : ∀ i < v.pageCount, ∀ p, v.slot mm.mem i = some p → mm.Spent p
  frame_data : ∀ i < v.pageCount, ∀ p, v.slot mm.mem i = some p → p ∉ v.metaFrames
  distinct : ∀ i < v.pageCount, ∀ j < v.pageCount, ∀ p, v.slot mm.mem i = some p →
    v.slot mm.mem j = some p → i = j

/-- Every owned data frame stands in the slot of its page. The vector is empty for an object over
borrowed frames and has one entry per page otherwise. -/
structure Owns (v : Vmo) (m : Mem) : Prop where
  length : v.committedPages = [] ∨ v.committedPages.length = v.pageCount
  own : ∀ i p, v.committedPages[i]? = some (some p) → v.slot m i = some p

variable {v : Vmo} {mm mm' : Mm} {m m' : Mem}

theorem Owns.index_lt (o : v.Owns m) {i : Nat} {e : Option Nat}
    (h : v.committedPages[i]? = some e) : i < v.pageCount := by
  have lt := (List.getElem?_eq_some_iff.mp h).choose
  rcases o.length with nil | len
  · simp [nil] at lt
  · rwa [← len]

@[simp] theorem contents_length (v : Vmo) (m : Mem) : (v.contents m).length = v.size := by
  simp [contents]

theorem contents_getElem? (v : Vmo) (m : Mem) (x : Nat) :
    (v.contents m)[x]? = if x < v.size then some (v.byteAt m x) else none := by
  simp only [contents, List.getElem?_map]
  split_ifs with h
  · simp [h]
  · simp [h]

/-- Objects over one metadata page have one slot table. -/
theorem slot_congr {v v' : Vmo} (h : v'.metaPage = v.metaPage) : v'.slot = v.slot := by
  funext m i
  simp only [slot, pageSlot, metaPageCount, h]

theorem contents_eq_of_meta {v v' : Vmo} (h : v'.metaPage = v.metaPage) (size : v'.size = v.size) :
    v'.contents = v.contents := by
  funext m
  simp only [contents, size]
  refine List.map_congr_left fun x _ => ?_
  simp only [byteAt, slot_congr h]

theorem contents_congr (v : Vmo) (h : ∀ x < v.size, v.byteAt m' x = v.byteAt m x) :
    v.contents m' = v.contents m := by
  refine List.map_congr_left fun x hx => h x ?_
  simpa using hx

theorem Backed.page_lt (b : v.Backed mm) {x : Nat} (hx : x < v.size) :
    x / pageSize < v.pageCount := by
  have size := b.laid.size_eq
  rw [size] at hx
  exact Nat.div_lt_of_lt_mul (by rwa [mul_comm])

/-- The vector of owned frames plays no part in the backing. -/
theorem Backed.with_committed (b : v.Backed mm) (c : List (Option Nat)) :
    { v with committedPages := c }.Backed mm :=
  ⟨⟨b.laid.size_eq, b.laid.bound, b.laid.meta_length, b.laid.nodup, b.laid.aligned,
    b.laid.table⟩, b.meta_spent, b.frame_aligned, b.frame_spent, b.frame_data, b.distinct⟩

/-- A memory that differs only outside the metadata and the data frames backs the object alike. -/
theorem Backed.of_same (b : v.Backed mm) (spent : ∀ p, mm.Spent p → mm'.Spent p)
    (same : v.MetaSame mm.mem mm'.mem) : v.Backed mm' := by
  have slots : ∀ i < v.pageCount, v.slot mm'.mem i = v.slot mm.mem i :=
    fun i hi => slot_of_meta b.laid same hi
  refine ⟨b.laid.of_meta same, fun p hp => spent p (b.meta_spent p hp), ?_, ?_, ?_, ?_⟩
  · exact fun i hi p hp => b.frame_aligned i hi p (slots i hi ▸ hp)
  · exact fun i hi p hp => spent p (b.frame_spent i hi p (slots i hi ▸ hp))
  · exact fun i hi p hp => b.frame_data i hi p (slots i hi ▸ hp)
  · exact fun i hi j hj p hp hq => b.distinct i hi j hj p (slots i hi ▸ hp) (slots j hj ▸ hq)

/-! ## Commit -/

/-- Taking a fresh frame leaves every spent page as it was. -/
theorem claim_sameOn (tag : PageTag) {pa q : Nat} (wf : mm.WF) (h : mm.Candidate pa)
    (hq : mm.Spent q) (al : pageSize ∣ q) : mm.mem.SameOn (mm.claim tag pa).mem q pageSize := by
  have apart := page_disjoint al (h.aligned wf) (h.not_spent hq)
  exact Mem.clear_sameOn (by unfold pageSize at *; omega)

theorem Backed.claim (b : v.Backed mm) (wf : mm.WF) (tag : PageTag) {pa : Nat}
    (h : mm.Candidate pa) : v.Backed (mm.claim tag pa) :=
  b.of_same (fun _ hq => hq.claim tag h)
    fun q hq => claim_sameOn tag wf h (b.meta_spent q hq) (b.laid.aligned q hq)

theorem slot_claim (b : v.Backed mm) (wf : mm.WF) {tag : PageTag} {pa i : Nat}
    (h : mm.Candidate pa) (hi : i < v.pageCount) :
    v.slot (mm.claim tag pa).mem i = v.slot mm.mem i :=
  slot_of_meta b.laid
    (fun q hq => claim_sameOn tag wf h (b.meta_spent q hq) (b.laid.aligned q hq)) hi

/-- The metadata after a commit: one slot and the counter in the header have changed. -/
theorem slot_enter (b : v.Backed mm) {i j pa : Nat} (hi : i < v.pageCount) (hj : j < v.pageCount)
    (hpa : pa < 2 ^ 64) :
    v.slot (v.enter i pa mm).mm.mem j = if j = i then some pa else v.slot mm.mem j := by
  have laid' := b.laid.of_table (writeSlot_table b.laid hi pa)
  rw [← slot_writeSlot b.laid hi hj hpa]
  exact slot_store_header laid' hj (by simp [headerSize])

/-- A commit writes to the metadata pages only. -/
theorem enter_sameOn (b : v.Backed mm) {i pa q : Nat} (hi : i < v.pageCount) (al : pageSize ∣ q)
    (hq : q ∉ v.metaFrames) : mm.mem.SameOn (v.enter i pa mm).mm.mem q pageSize := by
  obtain ⟨p, hp, addr⟩ := slotAddr_page b.laid hi
  have slot_apart := page_disjoint (b.laid.aligned p hp) al (by rintro rfl; exact hq hp)
  have head_apart := page_disjoint (b.laid.aligned _ v.metaPage_mem) al
    (by rintro rfl; exact hq v.metaPage_mem)
  have slot_write : mm.mem.SameOn (writeSlot mm.mem (v.pageSlot mm.mem i) pa) q pageSize := by
    refine writeSlot_sameOn ?_
    rw [pageSlot_eq b.laid hi, addr]
    simp only [headerSize, slotSize, slotsPerPage_eq, pageSize] at *
    omega
  exact slot_write.trans (Mem.store64_sameOn (by simp only [pageSize] at *; omega))

/-- A committed fresh frame is again a backing. -/
theorem Backed.enter (b : v.Backed mm) {i pa : Nat} (hi : i < v.pageCount) (hpa : pa < 2 ^ 64)
    (al : pageSize ∣ pa) (spent : mm.Spent pa) (data : pa ∉ v.metaFrames)
    (new : ∀ j < v.pageCount, v.slot mm.mem j ≠ some pa) : v.Backed (v.enter i pa mm).mm := by
  have slots : ∀ j < v.pageCount, ∀ p, v.slot (v.enter i pa mm).mm.mem j = some p →
      (j = i ∧ p = pa) ∨ (j ≠ i ∧ v.slot mm.mem j = some p) := by
    intro j hj p hp
    rw [slot_enter b hi hj hpa] at hp
    split_ifs at hp with eq
    · exact Or.inl ⟨eq, (Option.some.inj hp).symm⟩
    · exact Or.inr ⟨eq, hp⟩
  refine ⟨?_, b.meta_spent, ?_, ?_, ?_, ?_⟩
  · exact (b.laid.of_table (writeSlot_table b.laid hi pa)).store_header (by simp [headerSize])
  · intro j hj p hp
    rcases slots j hj p hp with ⟨_, rfl⟩ | ⟨_, hp⟩
    · exact al
    · exact b.frame_aligned j hj p hp
  · intro j hj p hp
    rcases slots j hj p hp with ⟨_, rfl⟩ | ⟨_, hp⟩
    · exact spent
    · exact b.frame_spent j hj p hp
  · intro j hj p hp
    rcases slots j hj p hp with ⟨_, rfl⟩ | ⟨_, hp⟩
    · exact data
    · exact b.frame_data j hj p hp
  · intro j hj k hk p hp hq
    rcases slots j hj p hp with ⟨hj', hp'⟩ | ⟨_, hp'⟩ <;>
      rcases slots k hk p hq with ⟨hk', hq'⟩ | ⟨_, hq'⟩
    · exact hj'.trans hk'.symm
    · exact absurd (hp' ▸ hq') (new k hk)
    · exact absurd (hq' ▸ hp') (new j hj)
    · exact b.distinct j hj k hk p hp' hq'

/-- The ways a commit can end. -/
inductive CommitResult (s : VmoState) (offset : Nat) :
    Outcome VmoState Status (Option Nat) → Prop where
  | outOfRange (h : s.vmo.size ≤ offset) : CommitResult s offset (.err .invalidArgs s)
  | borrowed (h : s.vmo.committedPages = []) : CommitResult s offset (.err .notAllowed s)
  | present (p : Nat) (h : s.vmo.committedPages[offset / pageSize]? = some (some p)) :
      CommitResult s offset (.ok none s)
  | committed (pa : Nat) (lt : offset < s.vmo.size)
      (h : s.vmo.committedPages[offset / pageSize]? = some none) (cand : s.mm.Candidate pa)
      (alloc : allocVmoData s.mm = .ok pa (s.mm.claim .vmoData pa)) :
      CommitResult s offset
        (.ok (some pa) (s.vmo.enter (offset / pageSize) pa (s.mm.claim .vmoData pa)))
  | exhausted (n : Nat) (lt : offset < s.vmo.size)
      (h : s.vmo.committedPages[offset / pageSize]? = some none)
      (failed : allocVmoData s.mm = .err .noMemory (s.mm.skipTo n)) (ge : s.mm.nextFreePage ≤ n)
      (grid : 4096 ∣ n - s.mm.nextFreePage) :
      CommitResult s offset (.err .noMemory { s with mm := s.mm.skipTo n })
  | panicked (n : Nat) (lt : offset < s.vmo.size)
      (h : s.vmo.committedPages[offset / pageSize]? = some none)
      (failed : allocVmoData s.mm = .fault (s.mm.skipTo n)) (ge : s.mm.nextFreePage ≤ n)
      (grid : 4096 ∣ n - s.mm.nextFreePage) :
      CommitResult s offset (.fault { s with mm := s.mm.skipTo n })

theorem commitPage_result (s : VmoState) (offset : Nat) (wf : s.mm.WF)
    (b : s.vmo.Backed s.mm) (o : s.vmo.Owns s.mm.mem) :
    CommitResult s offset (commitPage offset s) := by
  unfold commitPage
  simp only
  split_ifs with range empty
  · exact .outOfRange range
  · exact .borrowed (by simpa using empty)
  · have lt : offset < s.vmo.size := by omega
    have inside : offset / pageSize < s.vmo.committedPages.length := by
      rcases o.length with nil | len
      · simp [nil] at empty
      · rw [len]; exact b.page_lt lt
    obtain ⟨entry, hentry⟩ : ∃ e, s.vmo.committedPages[offset / pageSize]? = some e :=
      ⟨_, List.getElem?_eq_getElem inside⟩
    rw [hentry]
    cases entry with
    | some p => exact .present p hentry
    | none =>
      have alloc := allocPage_result .vmoData s.mm wf.end_lt
      simp only [allocVmoData]
      generalize hout : allocPage .vmoData s.mm = out at alloc
      cases alloc with
      | taken pa cand => exact .committed pa lt hentry cand hout
      | exhausted n ge grid => exact .exhausted n lt hentry hout ge grid
      | panicked n ge grid => exact .panicked n lt hentry hout ge grid

end Vmo

/-- The object is backed, and its owned frames stand in its slots. -/
structure VmoState.Valid (s : VmoState) : Prop where
  wf : s.mm.WF
  backed : s.vmo.Backed s.mm
  owns : s.vmo.Owns s.mm.mem

namespace Vmo

/-- What commits and writes do to an object: they may add frames, never replace one, and touch no
memory but the object's own and the frames they allocate. -/
structure Extends (s s' : VmoState) : Prop where
  same : s'.vmo = { s.vmo with committedPages := s'.vmo.committedPages }
  wf : s'.mm.WF
  backed : s.vmo.Backed s'.mm
  owns : s'.vmo.Owns s'.mm.mem
  slots : ∀ i < s.vmo.pageCount, ∀ p, s.vmo.slot s.mm.mem i = some p →
    s.vmo.slot s'.mm.mem i = some p
  fresh : ∀ i < s.vmo.pageCount, ∀ p, s.vmo.slot s'.mm.mem i = some p →
    s.vmo.slot s.mm.mem i = some p ∨ ¬ s.mm.Spent p
  unowned : ∀ i < s.vmo.pageCount, s'.vmo.committedPages[i]? = some none →
    s.vmo.slot s'.mm.mem i ≠ none →
    s.vmo.committedPages[i]? = some none ∧ s.vmo.slot s.mm.mem i ≠ none
  spent : ∀ q, s.mm.Spent q → s'.mm.Spent q
  frame : ∀ q, pageSize ∣ q → s.mm.Spent q → q ∉ s.vmo.metaFrames →
    (∀ i < s.vmo.pageCount, s.vmo.slot s.mm.mem i ≠ some q) →
    s.mm.mem.SameOn s'.mm.mem q pageSize

/-- A page may be committed through this object: if the object does not own a frame for it, no
other holder of the slot table has committed it. -/
def Committable (s : VmoState) (offset : Nat) : Prop :=
  s.vmo.committedPages[offset / pageSize]? = some none → offset < s.vmo.size →
    s.vmo.slot s.mm.mem (offset / pageSize) = none

section Extends

variable {s s' s'' : VmoState}

theorem Extends.refl (h : s.Valid) : Extends s s where
  same := rfl
  wf := h.wf
  backed := h.backed
  owns := h.owns
  slots _ _ _ hp := hp
  fresh _ _ _ hp := Or.inl hp
  unowned _ _ hc hs := ⟨hc, hs⟩
  spent _ hq := hq
  frame _ _ _ _ _ := Mem.SameOn.refl _ _ _

theorem Extends.valid (h : Extends s s') : s'.Valid := by
  refine ⟨h.wf, ?_, h.owns⟩
  rw [h.same]
  exact h.backed.with_committed _

theorem Extends.metaPage_eq (h : Extends s s') : s'.vmo.metaPage = s.vmo.metaPage := by
  rw [h.same]

theorem Extends.size_eq (h : Extends s s') : s'.vmo.size = s.vmo.size := by rw [h.same]

theorem Extends.contents_eq (h : Extends s s') : s'.vmo.contents = s.vmo.contents :=
  contents_eq_of_meta h.metaPage_eq h.size_eq

theorem Extends.trans (h : Extends s s') (h' : Extends s' s'') : Extends s s'' := by
  have meta_eq : s'.vmo.metaFrames = s.vmo.metaFrames := by rw [h.same]; rfl
  have count_eq : s'.vmo.pageCount = s.vmo.pageCount := by rw [pageCount, pageCount, h.size_eq]
  have slot_same : s'.vmo.slot = s.vmo.slot := slot_congr h.metaPage_eq
  refine ⟨?_, h'.wf, ?_, h'.owns, ?_, ?_, ?_, fun q hq => h'.spent q (h.spent q hq), ?_⟩
  · rw [h'.same, h.same]
  · have b := h'.backed
    rw [h.same] at b
    exact b.with_committed s.vmo.committedPages
  · intro i hi p hp
    have := h'.slots i (by rwa [count_eq]) p (by rw [slot_same]; exact h.slots i hi p hp)
    rwa [slot_same] at this
  · intro i hi p hp
    rcases h'.fresh i (by rwa [count_eq]) p (by rwa [slot_same]) with old | new
    · rw [slot_same] at old
      exact h.fresh i hi p old
    · exact Or.inr fun hq => new (h.spent p hq)
  · intro i hi hc hs
    have mid := h'.unowned i (by rwa [count_eq]) hc (by rwa [slot_same])
    rw [slot_same] at mid
    exact h.unowned i hi mid.1 mid.2
  · intro q al hq hmeta hslots
    refine (h.frame q al hq hmeta hslots).trans (h'.frame q al (h.spent q hq) ?_ ?_)
    · rwa [meta_eq]
    · intro i hi hp
      rw [slot_same] at hp
      rw [count_eq] at hi
      rcases h.fresh i hi q hp with old | new
      · exact hslots i hi old
      · exact new hq

/-- Moving the cursor changes no byte of memory. -/
theorem extends_skipTo (h : s.Valid) {n : Nat} (ge : s.mm.nextFreePage ≤ n)
    (grid : 4096 ∣ n - s.mm.nextFreePage) : Extends s { s with mm := s.mm.skipTo n } where
  same := rfl
  wf := h.wf.skipTo ge grid
  backed := h.backed.of_same (fun _ hq => hq.skipTo ge) fun _ _ => Mem.SameOn.refl _ _ _
  owns := h.owns
  slots _ _ _ hp := hp
  fresh _ _ _ hp := Or.inl hp
  unowned _ _ hc hs := ⟨hc, hs⟩
  spent _ hq := hq.skipTo ge
  frame _ _ _ _ _ := Mem.SameOn.refl _ _ _

/-- A fresh frame for a page without one. -/
theorem extends_enter (h : s.Valid) {i pa : Nat} (hi : i < s.vmo.pageCount)
    (cand : s.mm.Candidate pa) (absent : s.vmo.slot s.mm.mem i = none)
    (entry : s.vmo.committedPages[i]? = some none) :
    Extends s (s.vmo.enter i pa (s.mm.claim .vmoData pa)) ∧
      s.vmo.contents (s.vmo.enter i pa (s.mm.claim .vmoData pa)).mm.mem =
        s.vmo.contents s.mm.mem := by
  set v := s.vmo
  set mm₁ := s.mm.claim .vmoData pa with hmm₁
  have al := cand.aligned h.wf
  have lt := cand.lt_word
  have b₁ : v.Backed mm₁ := h.backed.claim h.wf .vmoData cand
  have slots₁ : ∀ j < v.pageCount, v.slot mm₁.mem j = v.slot s.mm.mem j :=
    fun j hj => slot_claim h.backed h.wf cand hj
  have data : pa ∉ v.metaFrames := fun hm => cand.not_spent (h.backed.meta_spent _ hm) rfl
  have new : ∀ j < v.pageCount, v.slot mm₁.mem j ≠ some pa := by
    intro j hj hp
    rw [slots₁ j hj] at hp
    exact cand.not_spent (h.backed.frame_spent j hj pa hp) rfl
  have slots₂ : ∀ j < v.pageCount, v.slot (v.enter i pa mm₁).mm.mem j =
      if j = i then some pa else v.slot s.mm.mem j := by
    intro j hj
    rw [slot_enter b₁ hi hj lt, slots₁ j hj]
  have keeps : ∀ q, pageSize ∣ q → s.mm.Spent q → q ∉ v.metaFrames →
      s.mm.mem.SameOn (v.enter i pa mm₁).mm.mem q pageSize := fun q alq hq hmeta =>
    (claim_sameOn .vmoData h.wf cand hq alq).trans (enter_sameOn b₁ hi alq hmeta)
  have wf₁ : mm₁.WF := h.wf.claim cand
  refine ⟨⟨rfl, ⟨wf₁.end_lt, wf₁.aligned⟩, b₁.enter hi lt al (s.mm.spent_claim_self _ _) data new, ?_, ?_,
    ?_, ?_, fun q hq => hq.claim .vmoData cand, ?_⟩, ?_⟩
  · refine ⟨?_, ?_⟩
    · rcases h.owns.length with nil | len
      · rw [nil] at entry; simp at entry
      · exact Or.inr ((List.length_set ..).trans len)
    · intro j p hj
      have hlt : i < v.committedPages.length := (List.getElem?_eq_some_iff.mp entry).choose
      simp only [enter, List.getElem?_set, hlt] at hj
      change v.slot (v.enter i pa mm₁).mm.mem j = some p
      by_cases eq : i = j
      · subst eq
        rw [slots₂ i hi]
        simpa using hj
      · simp only [eq, if_false] at hj
        have old := h.owns.own j p hj
        rw [slots₂ j (h.owns.index_lt hj), if_neg (Ne.symm eq)]
        exact old
  · intro j hj p hp
    rw [slots₂ j hj]
    split_ifs with eq
    · rw [eq, absent] at hp; cases hp
    · exact hp
  · intro j hj p hp
    rw [slots₂ j hj] at hp
    split_ifs at hp with eq
    · cases hp
      exact Or.inr fun hq => cand.not_spent hq rfl
    · exact Or.inl hp
  · intro j hj hc hs
    have ne : i ≠ j := by
      rintro rfl
      have hlt : i < v.committedPages.length := (List.getElem?_eq_some_iff.mp entry).choose
      simp [enter, hlt] at hc
    rw [slots₂ j hj, if_neg (Ne.symm ne)] at hs
    simp only [enter, List.getElem?_set_ne ne] at hc
    exact ⟨hc, hs⟩
  · exact fun q alq hq hmeta _ => keeps q alq hq hmeta
  · refine contents_congr v fun x hx => ?_
    have hpage := h.backed.page_lt hx
    have inpage : x % pageSize < pageSize := Nat.mod_lt _ (by simp [pageSize])
    unfold byteAt
    rw [slots₂ _ hpage]
    split_ifs with eq
    · -- the new page is zero, as the absent page read
      have zero : (v.enter i pa mm₁).mm.mem (pa + x % pageSize) = mm₁.mem (pa + x % pageSize) :=
        enter_sameOn b₁ hi al data _ (by omega) (by omega)
      rw [eq, absent]
      simp only [zero]
      exact Mem.clear_apply (by omega) (by simp only [pageSize] at inpage ⊢; omega)
    · cases hs : v.slot s.mm.mem (x / pageSize) with
      | none => rfl
      | some p =>
        exact keeps p (h.backed.frame_aligned _ hpage p hs) (h.backed.frame_spent _ hpage p hs)
          (h.backed.frame_data _ hpage p hs) _ (by omega) (by omega)

theorem commitPage_extends (h : s.Valid) {offset : Nat} (ok : Committable s offset) :
    Extends s (commitPage offset s).state ∧
      s.vmo.contents (commitPage offset s).state.mm.mem = s.vmo.contents s.mm.mem := by
  have result := commitPage_result s offset h.wf h.backed h.owns
  generalize commitPage offset s = out at result
  cases result with
  | outOfRange _ => exact ⟨.refl h, rfl⟩
  | borrowed _ => exact ⟨.refl h, rfl⟩
  | present _ _ => exact ⟨.refl h, rfl⟩
  | committed pa lt entry cand _ =>
    exact extends_enter h (h.backed.page_lt lt) cand (ok entry lt) entry
  | exhausted n _ _ _ ge grid => exact ⟨extends_skipTo h ge grid, rfl⟩
  | panicked n _ _ _ ge grid => exact ⟨extends_skipTo h ge grid, rfl⟩

/-! ## Storing one chunk -/

theorem store_page_sameOn {m : Mem} {p off q : Nat} {bytes : List UInt8} (hp : pageSize ∣ p)
    (hq : pageSize ∣ q) (ne : q ≠ p) (fit : off + bytes.length ≤ pageSize) :
    m.SameOn (m.store (p + off) bytes) q pageSize := by
  have apart := page_disjoint hp hq (Ne.symm ne)
  exact Mem.store_sameOn (by omega)

/-- Bytes stored in the frame of a page land in the content at that page. -/
theorem extends_store (h : s.Valid) {i p : Nat} (off : Nat) (bytes : List UInt8)
    (hi : i < s.vmo.pageCount) (hp : s.vmo.slot s.mm.mem i = some p)
    (fit : off + bytes.length ≤ pageSize) :
    Extends s (s.store (p + off) bytes) ∧
      s.vmo.contents (s.store (p + off) bytes).mm.mem =
        splice (s.vmo.contents s.mm.mem) (i * pageSize + off) bytes := by
  have al := h.backed.frame_aligned i hi p hp
  have keep : s.vmo.MetaSame s.mm.mem (s.store (p + off) bytes).mm.mem := fun q hq =>
    store_page_sameOn al (h.backed.laid.aligned q hq)
      (by rintro rfl; exact h.backed.frame_data i hi _ hp hq) fit
  have slots : ∀ j < s.vmo.pageCount,
      s.vmo.slot (s.store (p + off) bytes).mm.mem j = s.vmo.slot s.mm.mem j :=
    fun j hj => slot_of_meta h.backed.laid keep hj
  have size := h.backed.laid.size_eq
  have fits : i * pageSize + off + bytes.length ≤ s.vmo.size := by
    have : (i + 1) * pageSize ≤ s.vmo.pageCount * pageSize := Nat.mul_le_mul_right _ hi
    rw [add_mul] at this
    omega
  refine ⟨⟨rfl, ⟨h.wf.end_lt, h.wf.aligned⟩, h.backed.of_same (fun _ hq => hq) keep, ?_, ?_, ?_,
    ?_, fun _ hq => hq, ?_⟩, ?_⟩
  · refine ⟨h.owns.length, fun j q hj => ?_⟩
    have old := h.owns.own j q hj
    exact (slots j (h.owns.index_lt hj)).trans old
  · exact fun j hj q hq => (slots j hj).trans hq
  · exact fun j hj q hq => Or.inl ((slots j hj).symm.trans hq)
  · exact fun j hj hc hs => ⟨hc, slots j hj ▸ hs⟩
  · intro q alq _ _ hslots
    exact store_page_sameOn al alq (by rintro rfl; exact hslots i hi hp) fit
  · apply List.ext_getElem?
    intro x
    rw [splice_getElem? (by simpa using fits), contents_getElem?, contents_getElem?]
    by_cases hx : x < s.vmo.size
    · have hpage := h.backed.page_lt hx
      have inpage : x % pageSize < pageSize := Nat.mod_lt _ (by simp [pageSize])
      have split := Nat.div_add_mod x pageSize
      simp only [hx, if_true, byteAt, slots _ hpage]
      by_cases here : x / pageSize = i
      · -- the page of the chunk: inside the chunk the new byte, beside it the old one
        rw [here, hp]
        have off_eq : x = i * pageSize + x % pageSize := by rw [← here, mul_comm]; omega
        by_cases inside : off ≤ x % pageSize ∧ x % pageSize < off + bytes.length
        · have addr : p + x % pageSize = p + off + (x % pageSize - off) := by omega
          simp only [addr]
          rw [if_pos (by omega)]
          have idx : x - (i * pageSize + off) = x % pageSize - off := by omega
          have lt : x % pageSize - off < bytes.length := by omega
          rw [idx, List.getElem?_eq_getElem lt]
          exact congrArg some (Mem.store_apply_inside lt)
        · rw [if_neg (by omega)]
          have kept : s.mm.mem.SameOn (s.store (p + off) bytes).mm.mem (p + x % pageSize) 1 :=
            Mem.store_sameOn (by omega)
          exact congrArg some (kept _ le_rfl (by omega))
      · -- another page has another frame
        have away : ¬ (i * pageSize + off ≤ x ∧ x < i * pageSize + off + bytes.length) := by
          intro hin
          apply here
          exact Nat.div_eq_of_lt_le (by omega) (by rw [Nat.succ_mul]; omega)
        rw [if_neg away]
        cases hs : s.vmo.slot s.mm.mem (x / pageSize) with
        | none => rfl
        | some q =>
          have alq := h.backed.frame_aligned _ hpage q hs
          have ne : q ≠ p := by
            rintro rfl
            exact here (h.backed.distinct _ hpage i hi _ hs hp)
          exact congrArg some (store_page_sameOn al alq ne fit _ (by omega) (by omega))
    · rw [if_neg hx, if_neg hx, if_neg (by omega)]

end Extends

end Vmo

end CapsuleOS
