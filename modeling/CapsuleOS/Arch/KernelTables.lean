import CapsuleOS.Arch.Trees

/-!
# The kernel's own tables

The tables that are installed when the MMU is switched on are the first tree of the forest.
-/
namespace CapsuleOS

open Lib

variable {ty : Sites} {mm : Mm}

/-- A block is entered in a table below the root. -/
theorem Shaped.writeBlock (h : Shaped ty mm) {root p i : Nat} {σ : Site} (here : ty p = some σ)
    (mine : σ.Open root) (below : σ.path ≠ []) (hi : i < 512) (pa : Nat) (attr : MemAttr) :
    Shaped ty (mm.setMem (writePte mm.mem p i (l1Block pa attr))) := by
  refine (Confined.write h here hi mine (fun _ q hq => ?_) fun nil => absurd nil below).shaped
  rw [ref_eq_none.mpr fun _ => isTable_l1Block pa attr] at hq
  cases hq

/-- The entry behind a table belongs to a page that is no table. -/
theorem Shaped.writeBehind (h : Shaped ty mm) {p e : Nat} (al : pageSize ∣ p)
    (free : ty (p + pageSize) = none) : Shaped ty (mm.setMem (writePte mm.mem p 512 e)) := by
  suffices kept : Untouched ty mm (mm.setMem (writePte mm.mem p 512 e)) from kept.shaped h
  refine ⟨h.wf.setMem _, fun _ hq => hq, fun q σ hq => ?_⟩
  have al' : pageSize ∣ p + pageSize := al.add (dvd_refl pageSize)
  have ne : p + pageSize ≠ q := by
    rintro rfl
    rw [free] at hq
    cases hq
  have apart := page_disjoint al' (h.aligned q σ hq) ne
  refine Mem.store64_sameOn ?_
  simp only [pageSize] at *
  omega

/-- A reference to a table is entered in the root. -/
theorem Shaped.writeRoot (h : Shaped ty mm) {root i n : Nat} (top : ty root = some (rootSite root))
    (hi : i < 512) (below : ty n = some ((rootSite root).child i)) (lt : n < 2 ^ 48) :
    Shaped ty (mm.setMem (writePte mm.mem root i (tableEntry n))) := by
  refine (Confined.write h top hi (Or.inl rfl) (fun _ q hq => ?_) fun _ => ?_).shaped
  · rw [ref_tableEntry (h.aligned n _ below) lt] at hq
    cases hq
    exact below
  · exact ⟨isValid_tableEntry n, isTable_tableEntry n⟩

/-- The new tables before anything is entered in them. -/
structure FreshTables (l0 l1Id l1High hi : Nat) (ty : Sites) (mm : Mm) : Prop where
  shaped : Shaped ty mm
  root : ty l0 = some (rootSite l0)
  identity : ty l1Id = some ((rootSite l0).child 0)
  high : ty l1High = some ((rootSite l0).child hi)
  behind : ty (l1High + pageSize) = none
  identity_lt : l1Id < 2 ^ 48
  high_lt : l1High < 2 ^ 48

theorem freshTables {l0 l1Id l1High : Nat} (hi : Nat) (wf : mm.WF) (cand₀ : mm.Candidate l0)
    (cand₁ : (mm.claim .pageTable l0).Candidate l1Id)
    (cand₂ : ((mm.claim .pageTable l0).claim .pageTable l1Id).Candidate l1High) :
    ∃ ty, FreshTables l0 l1Id l1High hi ty
      (((mm.claim .pageTable l0).claim .pageTable l1Id).claim .pageTable l1High) := by
  have g₀ := PageTableTree.grown_root (Shaped.empty wf) cand₀ .pageTable []
  have owner : ∀ {ty : Sites} {pa : Nat} (σ : Site) (i r : Nat), ty l0 = some (rootSite l0) →
      l0 ≠ pa → ((rootSite l0).child i).owner = some r →
      Function.update ty pa (some σ) r = some (rootSite r) := by
    intro ty pa σ i r top ne owner
    have : r = l0 := by
      unfold Site.child rootSite at owner
      grind
    rw [this, Function.update_of_ne ne, top]
  have ge₁ := cand₁.ge_cursor
  have ge₂ := cand₂.ge_cursor
  have ne₁ : l0 ≠ l1Id := by simp [Mm.claim] at ge₁; omega
  have ne₂ : l1Id ≠ l1High := by simp [Mm.claim] at ge₂; omega
  have ne₃ : l0 ≠ l1High := by simp [Mm.claim] at ge₁ ge₂; omega
  have top₀ : Function.update (fun _ => none : Sites) l0 (some (rootSite l0)) l0 =
      some (rootSite l0) := Function.update_self _ _ _
  have mine : (rootSite l0).Open l0 := Or.inl rfl
  have g₁ : Grown l0 [] _ _ _ _ := Grown.fresh_table g₀.shaped cand₁ .pageTable
    (σ := (rootSite l0).child 0) (mine.child 0)
    (fun r => owner _ 0 r top₀ ne₁) (fun _ _ _ => Mem.SameOn.refl _ _ _)
    (fun _ i hi => by rw [readPte_claim hi, ref_zero]) (fun nil => absurd nil (by simp [Site.child]))
  have top₁ := g₁.le _ _ top₀
  have g₂ : Grown l0 [] _ _ _ _ := Grown.fresh_table g₁.shaped cand₂ .pageTable
    (σ := (rootSite l0).child hi) (mine.child hi)
    (fun r => owner _ hi r top₁ ne₃) (fun _ _ _ => Mem.SameOn.refl _ _ _)
    (fun _ i hi => by rw [readPte_claim hi, ref_zero]) (fun nil => absurd nil (by simp [Site.child]))
  refine ⟨_, g₂.shaped, g₂.le _ _ top₁, g₂.le _ _ (Function.update_self _ _ _),
    Function.update_self _ _ _, ?_, cand₁.lt_addr, cand₂.lt_addr⟩
  have apart₁ : l1High + pageSize ≠ l1Id := by simp [Mm.claim] at ge₂; omega
  have apart₂ : l1High + pageSize ≠ l0 := by simp [Mm.claim] at ge₁ ge₂; omega
  rw [Function.update_of_ne (by simp [pageSize]), Function.update_of_ne apart₁,
    Function.update_of_ne apart₂]

/-- What is entered in the fresh tables. -/
theorem FreshTables.enter {l0 l1Id l1High hi : Nat} (h : FreshTables l0 l1Id l1High hi ty mm)
    (hhi : hi < 512) {high : Nat} (hhigh : high < 512) :
    Shaped ty (mm.setMem (
      let m := writePte mm.mem l1Id 0 (l1Block 0 .device)
      let m := writePte m l1Id 1 (l1Block 0x40000000 .normalCacheable)
      let m := writePte m l1Id 2 (l1Block 0x80000000 .normalCacheable)
      let m := writePte m l1High high (l1Block 0x40000000 .normalCacheable)
      let m := writePte m l1High (high + 1) (l1Block 0x80000000 .normalCacheable)
      let m := writePte m l0 0 (tableEntry l1Id)
      writePte m l0 hi (tableEntry l1High))) := by
  have mine : (rootSite l0).Open l0 := Or.inl rfl
  have below : ∀ i, ((rootSite l0).child i).path ≠ [] := fun i => by simp [Site.child]
  have s₁ := h.shaped.writeBlock h.identity (mine.child 0) (below 0) (by decide : 0 < 512) 0 .device
  have s₂ := s₁.writeBlock h.identity (mine.child 0) (below 0) (by decide : 1 < 512) 0x40000000
    .normalCacheable
  have s₃ := s₂.writeBlock h.identity (mine.child 0) (below 0) (by decide : 2 < 512) 0x80000000
    .normalCacheable
  have s₄ := s₃.writeBlock h.high (mine.child hi) (below hi) hhigh 0x40000000 .normalCacheable
  have s₅ : Shaped ty (mm.setMem (writePte (writePte (writePte (writePte (writePte mm.mem l1Id 0
      (l1Block 0 .device)) l1Id 1 (l1Block 0x40000000 .normalCacheable)) l1Id 2
      (l1Block 0x80000000 .normalCacheable)) l1High high (l1Block 0x40000000 .normalCacheable))
      l1High (high + 1) (l1Block 0x80000000 .normalCacheable))) := by
    by_cases last : high + 1 < 512
    · exact s₄.writeBlock h.high (mine.child hi) (below hi) last 0x80000000 .normalCacheable
    · have eq : high + 1 = 512 := by omega
      rw [eq]
      exact s₄.writeBehind (h.shaped.aligned _ _ h.high) h.behind
  exact (s₅.writeRoot h.root (by decide : 0 < 512) h.identity h.identity_lt).writeRoot h.root hhi h.high
    h.high_lt

theorem enableInner_shaped (wf : mm.WF) (ramBase : Nat) :
    Prog.Post (enableInner ramBase) mm
      (fun root mm' => ∃ ty, Shaped ty mm' ∧ ty root = some (rootSite root)) (fun _ => True) := by
  refine Prog.Post.bind ((allocPage_post wf .pageTable).mono (fun _ _ h => h) fun _ _ => trivial) ?_
  rintro l0 _ ⟨cand₀, rfl⟩
  refine Prog.Post.bind ((allocPage_post (wf.claim cand₀) .pageTable).mono (fun _ _ h => h)
    fun _ _ => trivial) ?_
  rintro l1Id _ ⟨cand₁, rfl⟩
  refine Prog.Post.bind ((allocPage_post ((wf.claim cand₀).claim cand₁) .pageTable).mono
    (fun _ _ h => h) fun _ _ => trivial) ?_
  rintro l1High _ ⟨cand₂, rfl⟩
  obtain ⟨ty, fresh⟩ := freshTables (vaL0Index (wadd ramBase kernelOffset)) wf cand₀ cand₁ cand₂
  refine Prog.Post.modify_bind (.pure ⟨ty, ?_, fresh.root⟩)
  exact fresh.enter (vaL0Index_lt _) (vaL1Index_lt _)

end CapsuleOS
