import CapsuleOS.Arch.Mapping

/-!
# The tree of one process among the others

The routines of `PageTableTree` stay confined to their own tree, and what a root translates, and with
which rights, depends on the tables of its own tree only.
-/
namespace CapsuleOS

open Lib

/-! ## Leaf descriptors -/

/-- The last descriptor of the walk, with the indices that are left when it stops early. -/
def leaf (m : Mem) (root va : Nat) : Nat × List Nat :=
  Radix.walk ref (readPte m) root (vaL0Index va) [vaL1Index va, vaL2Index va, vaL3Index va]

/-- The address that a leaf descriptor gives to `va`. -/
def leafOutput (va : Nat) : Nat × List Nat → Option Nat
  | (e, rest) =>
    if !isValid e then none
    else match rest with
      | [] => some (pteAddr e + va % 2 ^ 12)
      | [_] => some ((e &&& 0x0000FFFFFFE00000) + va % 2 ^ 21)
      | [_, _] => some ((e &&& 0x0000FFFFC0000000) + va % 2 ^ 30)
      | _ => none

structure Access where
  read : Bool
  write : Bool
  execute : Bool
  deriving DecidableEq

/-- What a leaf descriptor grants to EL0. There are no blocks at level 0, and a descriptor of level 3
is a page only if it has the type of one. -/
def leafAccess : Nat × List Nat → Option Access
  | (e, rest) =>
    if !isValid e ∨ rest.length = 3 ∨ (rest = [] ∧ !isTable e) then none
    else some
      { read := e.testBit 6
        write := e.testBit 6 && !e.testBit 7
        execute := !e.testBit 54 }

def el0Access (m : Mem) (root va : Nat) : Option Access := leafAccess (leaf m root va)

theorem translate_eq_leaf {m : Mem} {root va : Nat}
    (top : readPte m root (vaL0Index va) = 0 ∨ (isValid (readPte m root (vaL0Index va)) = true ∧
      isTable (readPte m root (vaL0Index va)) = true)) :
    PageTableTree.translate m root va = leafOutput va (leaf m root va) := by
  rcases top with zero | ⟨v0, t0⟩
  · simp [PageTableTree.translate, leaf, Radix.walk, zero, ref_zero, leafOutput, isValid]
  · simp only [PageTableTree.translate, leaf, Radix.walk, ref, v0, t0, Bool.and_self, if_true,
      Bool.not_true, Bool.false_eq_true, if_false]
    generalize readPte m (pteAddr (readPte m root (vaL0Index va))) (vaL1Index va) = l1e
    by_cases v1 : isValid l1e = true
    · by_cases t1 : isTable l1e = true
      · simp only [v1, t1, Bool.and_self, if_true, Bool.not_true, Bool.false_eq_true, if_false]
        generalize readPte m (pteAddr l1e) (vaL2Index va) = l2e
        by_cases v2 : isValid l2e = true
        · by_cases t2 : isTable l2e = true
          · simp [v2, t2, leafOutput]
          · simp [v2, t2, leafOutput]
        · simp [v2, leafOutput]
      · simp [v1, t1, leafOutput]
    · simp [v1, leafOutput]

section Frame

variable {ty ty' : Sites} {mm mm' : Mm} {root r va : Nat}

/-- The sites along a path in the lower half belong to the tree. -/
theorem owner_foldl {i : Nat} (lower : i < 256) (js : List Nat) :
    ((i :: js).foldl Site.child (rootSite r)).owner = some r ∧
      ((i :: js).foldl Site.child (rootSite r)).path = i :: js := by
  have step : ∀ (js : List Nat) (σ : Site), σ.path ≠ [] →
      (js.foldl Site.child σ).owner = σ.owner ∧ (js.foldl Site.child σ).path = σ.path ++ js := by
    intro js
    induction js with
    | nil => intro σ _; simp
    | cons j js ih =>
      intro σ below
      obtain ⟨owner, path⟩ := ih (σ.child j) (by simp [Site.child])
      simp only [List.foldl_cons]
      rw [owner, path]
      simp [Site.child, below]
  obtain ⟨owner, path⟩ := step js ((rootSite r).child i) (by simp [Site.child])
  rw [List.foldl_cons, owner, path]
  simp [Site.child, rootSite]
  omega

end Frame

/-! ## Steps that write no table -/

/-- No table has been written, and no frame has been given back. -/
structure Untouched (ty : Sites) (mm mm' : Mm) : Prop where
  wf : mm'.WF
  spent : ∀ q, mm.Spent q → mm'.Spent q
  same : ∀ p σ, ty p = some σ → mm.mem.SameOn mm'.mem p pageSize

section Untouched

variable {ty : Sites} {mm mm' mm'' : Mm} {r : Nat}

theorem Untouched.confined (h : Untouched ty mm mm') (shaped : Shaped ty mm) :
    Confined r ty mm ty mm' := .of_sameOn shaped h.wf h.spent h.same

theorem Untouched.shaped (h : Untouched ty mm mm') (shaped : Shaped ty mm) : Shaped ty mm' :=
  (h.confined (r := 0) shaped).shaped

end Untouched

/-! ## Frames that are no tables -/

/-- Frames that are in use and no tables keep their content. -/
def Aside (ty₀ : Sites) (mm₀ : Mm) (ty : Sites) (mm : Mm) : Prop :=
  ∀ q, pageSize ∣ q → mm₀.Spent q → ty₀ q = none →
    mm.Spent q ∧ ty q = none ∧ mm₀.mem.SameOn mm.mem q pageSize

section Aside

variable {ty ty' ty'' : Sites} {mm mm' mm'' : Mm} {r : Nat} {target : List Nat}

theorem Grown.aside (g : Grown r target ty mm ty' mm') : Aside ty mm ty' mm' :=
  fun q al spent free => ⟨g.spent q spent, g.untyped spent free, g.others q al spent free⟩

end Aside

/-! ## Mapping -/

theorem TreeState.track_still (pa : Nat) (s : TreeState) : s.mm.Still (s.track pa).mm := by
  unfold TreeState.track
  split_ifs
  · exact .refl _
  · exact .refl _
  · exact ⟨rfl, rfl, rfl⟩

namespace PageTableTree

theorem walker_standard : walker.Standard where
  clean := cleanEntry_tableEntry
  cleanSplit := cleanEntry_tableEntry
  attrBits := pteAttrBits_or_af

theorem walker_lawful : walker.Lawful where
  toStandard := walker_standard
  view_put _ _ := rfl
  track_still := TreeState.track_still
  trackSplit_still := TreeState.track_still

end PageTableTree

/-- The routine leaves the root where it is. -/
def TreeState.SameRoot (s s' : TreeState) : Prop :=
  s'.tree.l0Pa = s.tree.l0Pa ∧ s'.tree.hasRoot = s.tree.hasRoot

instance : Std.Refl TreeState.SameRoot := ⟨fun _ => ⟨rfl, rfl⟩⟩

instance : IsTrans TreeState TreeState.SameRoot :=
  ⟨fun _ _ _ h h' => ⟨h'.1.trans h.1, h'.2.trans h.2⟩⟩

theorem TreeState.track_sameRoot (pa : Nat) (s : TreeState) : s.SameRoot (s.track pa) := by
  unfold TreeState.track
  split_ifs <;> exact ⟨rfl, rfl⟩

namespace Walker

variable {S : Type} {w : Walker S} {R : S → S → Prop} [Std.Refl R] [IsTrans S R]

/-- A walk stays within a preorder if its steps do. -/
theorem mapPage_within (alloc : Prog.Within R (w.onMm allocPtPage))
    (write : ∀ t i e, Prog.Within R (w.write t i e)) (track : ∀ pa s, R s (w.track pa s))
    (trackSplit : ∀ pa s, R s (w.trackSplit pa s)) (root va pa : Nat) (flags : MapFlags) :
    Prog.Within R (w.mapPage root va pa flags) := by
  have new : ∀ t i, Prog.Within R (w.newTable t i) := fun t i =>
    alloc.bind fun pa => (write _ _ _).bind fun _ =>
      (Prog.Within.modify (track pa)).bind fun _ => .pure pa
  have split : ∀ size type t i e, Prog.Within R (w.split size type t i e) := fun size type t i e =>
    alloc.bind fun pa => (Prog.Within.modify (trackSplit pa)).bind fun _ =>
      (Prog.Within.forEach fun i _ => write _ _ _).bind fun _ => (write _ _ _).bind fun _ => .pure pa
  have enter : ∀ onBlock, (∀ t i e, Prog.Within R (onBlock t i e)) → ∀ t i,
      Prog.Within R (w.enterTable onBlock t i) := by
    intro onBlock block t i
    refine Prog.Within.bind Prog.Within.get fun s => ?_
    simp only
    split_ifs
    · exact .pure _
    · exact block t i _
    · exact new t i
  refine Prog.Within.bind (enter _ (fun _ _ _ => .throw _) _ _) fun l1 => ?_
  refine Prog.Within.bind (enter _ (split _ _) _ _) fun l2 => ?_
  exact Prog.Within.bind (enter _ (split _ _) _ _) fun l3 => write _ _ _

end Walker

namespace PageTableTree

theorem onMm_sameRoot {α : Type} (m : MmM α) : Prog.Within TreeState.SameRoot (TreeState.onMm m) := by
  intro s
  unfold TreeState.onMm Prog.zoom
  cases m s.mm <;> exact ⟨rfl, rfl⟩

theorem mapPage_sameRoot (root va pa : Nat) (flags : MapFlags) :
    Prog.Within TreeState.SameRoot (walker.mapPage root va pa flags) :=
  Walker.mapPage_within (onMm_sameRoot _) (fun _ _ _ => onMm_sameRoot _) TreeState.track_sameRoot
    TreeState.track_sameRoot _ _ _ _

variable {ty : Sites} {s : TreeState}

/-- The tree is one of the forest, and memory has the shape of the forest. -/
structure Rooted (ty : Sites) (s : TreeState) : Prop where
  shaped : Shaped ty s.mm
  hasRoot : s.tree.hasRoot = true
  top : ty s.tree.l0Pa = some (rootSite s.tree.l0Pa)

/-- What holds after a step in the tree of `s`. -/
structure Moved (target : List Nat) (ty : Sites) (s s' : TreeState) (ty' : Sites) : Prop where
  grown : Grown s.tree.l0Pa target ty s.mm ty' s'.mm
  same : s.SameRoot s'

theorem mapVa_keeps {I : Sites → Mm → Prop} {va pa : Nat} {flags : MapFlags} (h : Rooted ty s)
    (inv : WalkInvariant s.tree.l0Pa (vaPath va) (pageEntry pa flags) I) (start : I ty s.mm) :
    Prog.Post (mapVa va pa flags) s
      (fun _ s' => (∃ ty', Moved (vaPath va) ty s s' ty' ∧ I ty' s'.mm) ∧ pageSize ∣ pa ∧
        Mapped s'.mm.mem s.tree.l0Pa va (pageEntry pa flags % 2 ^ 64))
      (fun s' => ∃ ty', Moved (vaPath va) ty s s' ty' ∧ I ty' s'.mm) := by
  have stay : ∃ ty', Moved (vaPath va) ty s s ty' ∧ I ty' s.mm :=
    ⟨ty, ⟨.refl h.shaped, rfl, rfl⟩, start⟩
  unfold mapVa
  refine Prog.Post.get_bind ?_
  simp only [h.hasRoot, Bool.not_true, Bool.false_eq_true, if_false]
  split_ifs with misaligned
  · exact .throw stay
  · have post := Walker.mapPage_keeps inv walker_lawful h.shaped start h.top
    have roots := mapPage_sameRoot s.tree.l0Pa va pa flags s
    refine ⟨fun a t run => ?_, fun e t run => ?_, fun t run => ?_⟩
    · rw [run] at roots
      obtain ⟨⟨ty', grown, kept⟩, mapped⟩ := post.ok a t run
      exact ⟨⟨ty', ⟨grown, roots⟩, kept⟩, by unfold pageSize at *; omega, mapped⟩
    · rw [run] at roots
      obtain ⟨ty', grown, kept⟩ := post.err e t run
      exact ⟨ty', ⟨grown, roots⟩, kept⟩
    · rw [run] at roots
      obtain ⟨ty', grown, kept⟩ := post.fault t run
      exact ⟨ty', ⟨grown, roots⟩, kept⟩

theorem mapVa_post (h : Rooted ty s) (va pa : Nat) (flags : MapFlags) :
    Prog.Post (mapVa va pa flags) s
      (fun _ s' => (∃ ty', Moved (vaPath va) ty s s' ty') ∧ pageSize ∣ pa ∧
        Mapped s'.mm.mem s.tree.l0Pa va (pageEntry pa flags % 2 ^ 64))
      (fun s' => ∃ ty', Moved (vaPath va) ty s s' ty') := by
  have forget : ∀ s', (∃ ty', Moved (vaPath va) ty s s' ty' ∧ True) →
      ∃ ty', Moved (vaPath va) ty s s' ty' := fun _ ⟨ty', moved, _⟩ => ⟨ty', moved⟩
  exact (mapVa_keeps h .trivial True.intro).mono
    (fun _ _ out => ⟨forget _ out.1, out.2⟩) fun _ => forget _

/-! ## A new root -/

/-- No table belongs to the tree of `root` yet. -/
def Unused (ty : Sites) (root : Nat) : Prop := ∀ p σ, ty p = some σ → σ.owner ≠ some root

theorem exists_unused {mm : Mm} (h : Shaped ty mm) : ∃ root, Unused ty root := by
  refine ⟨1, fun p σ hp owner => ?_⟩
  have al := h.aligned 1 _ (h.owned p σ 1 hp owner)
  unfold pageSize at al
  omega

theorem unused_candidate {mm : Mm} (h : Shaped ty mm) {pa : Nat} (cand : mm.Candidate pa) :
    Unused ty pa := by
  intro p σ hp owner
  exact cand.not_spent (h.spent pa _ (h.owned p σ pa hp owner)) rfl

/-- A fresh frame as the root of a tree without entries. -/
theorem grown_root {mm : Mm} (h : Shaped ty mm) {pa : Nat} (cand : mm.Candidate pa) (tag : PageTag)
    (target : List Nat) : Grown pa target ty mm (Function.update ty pa (some (rootSite pa)))
      (mm.claim tag pa) := by
  change Grown pa target ty mm _ ((mm.claim tag pa).setMem (mm.claim tag pa).mem)
  refine Grown.fresh_table h cand tag (Or.inl rfl) ?_ (fun _ _ _ => Mem.SameOn.refl _ _ _) ?_ ?_
  · intro r owner
    cases owner
    exact Function.update_self _ _ _
  · intro _ i hi
    rw [readPte_claim hi, ref_zero]
  · intro _ i hi
    exact readPte_claim hi

/-- Only the first entry of the root is in use, for a table that is not at address zero. -/
structure NewRoot (ty : Sites) (mm : Mm) (root : Nat) : Prop where
  first : ref (readPte mm.mem root 0) ≠ none
  nonzero : pteAddr (readPte mm.mem root 0) ≠ 0
  rest : ∀ p σ, ty p = some σ → σ.owner = some root → ∀ i < 512,
    isValid (readPte mm.mem p i) = true → p = root ∧ i = 0

/-- A new root comes with a table for its first entry. If it fails, the tree has no root. -/
theorem allocateRoot_post (h : Shaped ty s.mm) (new : s.tree.hasRoot = false) :
    Prog.Post allocateRoot s
      (fun _ s' => Unused ty s'.tree.l0Pa ∧ ∃ ty', Rooted ty' s' ∧
        Confined s'.tree.l0Pa ty s.mm ty' s'.mm ∧ Aside ty s.mm ty' s'.mm ∧
        NewRoot ty' s'.mm s'.tree.l0Pa)
      (fun s' => s'.tree = s.tree ∧ ∃ root ty', Unused ty root ∧ Confined root ty s.mm ty' s'.mm) := by
  simp only [allocateRoot, cleanEntry_tableEntry]
  refine Prog.Post.get_bind ?_
  simp only [new, Bool.false_eq_true, if_false]
  refine Prog.Post.bind (Q := fun l0 s₁ => s.mm.Candidate l0 ∧ s₁ = { s with mm := s.mm.claim .pageTable l0 })
    (Prog.Post.zoom (allocPage_post h.wf .pageTable) (fun _ _ ok => ⟨ok.1, by rw [ok.2]⟩) ?_) ?_
  · rintro m ⟨n, ge, grid, rfl⟩
    -- nothing has been allocated: any root without tables will do
    obtain ⟨root, unused⟩ := exists_unused h
    exact ⟨rfl, root, ty, unused, (Grown.skipTo h ge grid : Grown root [] _ _ _ _).toConfined⟩
  rintro l0 s₁ ⟨cand0, rfl⟩
  have g0 := grown_root h cand0 .pageTable []
  have unused := unused_candidate h cand0
  refine Prog.Post.bind (Q := fun l1 s₂ => (s.mm.claim .pageTable l0).Candidate l1 ∧
      s₂ = { s with mm := (s.mm.claim .pageTable l0).claim .pageTable l1 })
    (Prog.Post.zoom (allocPage_post g0.shaped.wf .pageTable) (fun _ _ ok => ⟨ok.1, by rw [ok.2]⟩) ?_) ?_
  · rintro m ⟨n, ge, grid, rfl⟩
    exact ⟨rfl, l0, _, unused, (g0.trans (Grown.skipTo g0.shaped ge grid)).toConfined⟩
  rintro l1 s₂ ⟨cand1, rfl⟩
  have top : Function.update ty l0 (some (rootSite l0)) l0 = some (rootSite l0) :=
    Function.update_self _ _ _
  have empty : ref (readPte (s.mm.claim .pageTable l0).mem l0 0) = none := by
    rw [readPte_claim (by decide), ref_zero]
  have g1 : Grown l0 [] _ _ _ _ := Grown.link g0.shaped cand1 .pageTable top
    (by decide : 0 < 3) (Or.inl rfl) (by decide : 0 < 512) empty (fun _ _ _ => Mem.SameOn.refl _ _ _)
    (fun _ i hi => by rw [readPte_claim hi, ref_zero])
  have al0 := cand0.aligned h.wf
  have al1 := cand1.aligned g0.shaped.wf
  have spent0 : (s.mm.claim .pageTable l0).Spent l0 := s.mm.spent_claim_self .pageTable l0
  have ne : l0 ≠ l1 := cand1.not_spent spent0
  have first : ref (readPte (writePte ((s.mm.claim .pageTable l0).claim .pageTable l1).mem l0 0
      (tableEntry l1)) l0 0) = some l1 := by
    rw [readPte_writePte_same, ref_mod, ref_tableEntry al1 cand1.lt_addr]
  refine .of_ok ⟨(), _, rfl, unused, _, ⟨g1.shaped, rfl, ?_⟩, (g0.trans g1).toConfined,
    (g0.trans g1).aside, ?_, ?_, ?_⟩
  · exact g1.le _ _ top
  · rw [Mm.setMem_mem, first]
    simp
  · rw [Mm.setMem_mem, (ref_eq_some.mp first).2]
    have ram := cand1.ge_ram
    unfold ramBase at ram
    omega
  · intro p σ typed owner i hi valid
    rw [Mm.setMem_mem] at valid
    by_cases leaf : p = l1
    · subst leaf
      rw [readPte_sameOn (writePte_sameOn al0 al1 (Ne.symm ne) (by decide)) hi, readPte_claim hi] at valid
      cases valid
    rw [Function.update_of_ne leaf] at typed
    by_cases root : p = l0
    · subst root
      by_cases zero : i = 0
      · exact ⟨rfl, zero⟩
      · rw [readPte_writePte_of_ne zero, readPte_sameOn (Vmo.claim_sameOn .pageTable g0.shaped.wf cand1
          spent0 al0) hi, readPte_claim hi] at valid
        cases valid
    · rw [Function.update_of_ne root] at typed
      exact absurd owner (unused p σ typed)

/-! ## Sharing with a parent -/

theorem copyEntry_confined {mm : Mm} (h : Shaped ty mm) {root src dst i : Nat} {σ : Site}
    (here : ty dst = some σ) (mine : σ.Open root) (hi : i < 512)
    (inner : σ.Inner → ∀ q, ref (readPte mm.mem src i) = some q → ty q = some (σ.child i))
    (top : σ.path = [] → readPte mm.mem src i ≠ 0 →
      isValid (readPte mm.mem src i) = true ∧ isTable (readPte mm.mem src i) = true) :
    Confined root ty mm ty (mm.setMem (copyEntry mm.mem src dst i)) := by
  unfold copyEntry
  split_ifs with nonzero
  · exact Confined.write h here hi mine inner fun nil => top nil nonzero
  · exact Confined.refl h

/-- The upper half of the parent is shared. -/
theorem cloneHighHalf_confined (h : Rooted ty s) {parent : Nat}
    (source : ty parent = some (rootSite parent)) :
    Confined s.tree.l0Pa ty s.mm ty (cloneHighHalf parent s).mm := by
  unfold cloneHighHalf
  rw [if_pos h.hasRoot]
  simp only
  suffices loop : ∀ (is : List Nat) (mm : Mm), (∀ i ∈ is, 256 ≤ i ∧ i < 512) → Shaped ty mm →
      Confined s.tree.l0Pa ty mm ty
        (mm.setMem (is.foldl (fun m i => copyEntry m parent s.tree.l0Pa i) mm.mem)) by
    have bound : ∀ i ∈ List.range' 256 256, 256 ≤ i ∧ i < 512 := by
      intro i mem
      rw [List.mem_range'_1] at mem
      omega
    exact loop (List.range' 256 256) s.mm bound h.shaped
  intro is
  induction is with
  | nil => exact fun mm _ shaped => Confined.refl shaped
  | cons i is ih =>
    intro mm bound shaped
    obtain ⟨lo, hi⟩ := bound i (by simp)
    have first : Confined s.tree.l0Pa ty mm ty (mm.setMem (copyEntry mm.mem parent s.tree.l0Pa i)) :=
      copyEntry_confined shaped h.top (Or.inl rfl) hi
      (fun _ q hq => by
        -- above the root the child site is the same for all trees
        have := shaped.placed parent _ source (by decide : 0 < 3) i hi q hq
        simpa [Site.child, rootSite, lo] using this)
      (fun _ nonzero => (shaped.root parent _ source rfl i hi).resolve_left nonzero)
    have rest := ih _ (fun j mem => bound j (by simp [mem])) first.shaped
    rw [Mm.setMem_setMem, Mm.setMem_mem] at rest
    rw [List.foldl_cons]
    exact first.trans rest

theorem cloneHighHalf_tree (parent : Nat) (t : TreeState) : (cloneHighHalf parent t).tree = t.tree := by
  unfold cloneHighHalf
  split_ifs <;> rfl

/-- The entry of the parent that `clone_identity_block` copies. -/
def identityEntry (m : Mem) (parent : Nat) : Nat := readPte m (pteAddr (readPte m parent 0)) 1

/-- If the parent maps its identity block with a block, nothing is shared. -/
theorem cloneIdentityBlock_confined (h : Rooted ty s) {parent : Nat}
    (first : ref (readPte s.mm.mem s.tree.l0Pa 0) ≠ none)
    (block : readPte s.mm.mem parent 0 ≠ 0 → ref (identityEntry s.mm.mem parent) = none) :
    Confined s.tree.l0Pa ty s.mm ty (cloneIdentityBlock parent s).mm := by
  unfold cloneIdentityBlock
  simp only
  split_ifs with cond
  · have entry : ref (readPte s.mm.mem s.tree.l0Pa 0) =
        some (pteAddr (readPte s.mm.mem s.tree.l0Pa 0)) := by
      obtain ⟨q, hq⟩ := Option.ne_none_iff_exists'.mp first
      rw [hq, (ref_eq_some.mp hq).2]
    have mine := h.shaped.placed _ _ h.top (by decide : 0 < 3) 0 (by decide) _ entry
    refine copyEntry_confined h.shaped mine (Or.inl rfl) (by decide) ?_ ?_
    · intro _ q hq
      have none_there := block cond.2.1
      rw [identityEntry, hq] at none_there
      cases none_there
    · intro nil
      simp [Site.child] at nil
  · exact Confined.refl h.shaped

theorem cloneIdentityBlock_tree (parent : Nat) (t : TreeState) :
    (cloneIdentityBlock parent t).tree = t.tree := by
  unfold cloneIdentityBlock
  simp only
  split_ifs <;> rfl

end PageTableTree

end CapsuleOS
