import CapsuleOS.Arch.TreeSteps

/-!
# What a mapping changes for the addresses of a tree

`map_va` gives one page a new descriptor. Every other address keeps its translation, whichever tables
have been linked and whichever blocks have been split on the way, and also when the call fails half
way. The access from EL0 is kept only where no block had to be split, or where the block was already
open to EL0 for reading and execution: the parts of a block are opened.
-/
namespace CapsuleOS

open Lib

/-! ## Pages -/

/-- The number of the 4 KiB page of an address; the walk reads 48 bits of it. -/
def pageNumber (va : Nat) : Nat := va % 2 ^ 48 / 4096

theorem vaPath_eq_iff_page {x y : Nat} : vaPath x = vaPath y ↔ pageNumber x = pageNumber y := by
  rw [vaPath_eq_iff]
  unfold pageNumber
  omega

theorem pageNumber_add {va k : Nat} (al : pageSize ∣ va) (hk : k < 4096) :
    pageNumber (va + k) = pageNumber va ∧ (va + k) % 2 ^ 12 = k := by
  obtain ⟨q, rfl⟩ := al
  unfold pageNumber pageSize
  omega

/-! ## The masks of the two walks -/

theorem cleanMask_tree : CleanMask PageTableTree.walker.keptBits where
  addr i lo hi := by
    have shape : PageTableTree.walker.keptBits = ((2 ^ 4 - 1) <<< 48) ||| (2 ^ 12 - 1) := by decide
    rw [shape, Nat.testBit_or, Nat.testBit_shiftLeft, Nat.testBit_two_pow_sub_one,
      Nat.testBit_two_pow_sub_one]
    grind
  readOnly := by decide

namespace PageTableTree

variable {s : TreeState} {va pa : Nat} {flags : MapFlags}

/-- A mapping of a rooted tree: leaves of the tree get finer, and then the page its descriptor. -/
theorem mapVa_growing (wf : s.mm.WF) (tree : WellFormed s.mm.mem s.tree.l0Pa)
    (held : HeldTables s.mm s.tree.l0Pa) :
    Prog.Post (mapVa va pa flags) s
      (fun _ s' => s.SameRoot s' ∧ s.tree.hasRoot = true ∧ pageSize ∣ va ∧ pageSize ∣ pa ∧
        ∃ mm l3, Growing walker.keptBits s.tree.l0Pa va s.mm.mem mm ∧
          tableAt mm.mem s.tree.l0Pa [vaL0Index va, vaL1Index va, vaL2Index va] = some l3 ∧
          s'.mm = mm.setMem (writePte mm.mem l3 (vaL3Index va) (pageEntry pa flags)) ∧
          Paged s.tree.l0Pa va (pageEntry pa flags) mm.mem s'.mm.mem)
      (fun s' => s.SameRoot s' ∧ Growing walker.keptBits s.tree.l0Pa va s.mm.mem s'.mm) := by
  have start : Growing walker.keptBits s.tree.l0Pa va s.mm.mem s.mm := .start wf tree held
  refine Prog.Post.get_bind ?_
  split_ifs with misaligned unrooted
  · exact .throw ⟨⟨rfl, rfl⟩, start⟩
  · exact .throw ⟨⟨rfl, rfl⟩, start⟩
  · have post : Prog.Post (walker.mapPage s.tree.l0Pa va pa flags) s _ _ :=
      Walker.mapPage_growing walker_lawful cleanMask_tree start
    have roots := mapPage_sameRoot s.tree.l0Pa va pa flags s
    rw [not_or, not_not, not_not] at misaligned
    refine ⟨fun a t run => ?_, fun e t run => ?_, fun t run => ?_⟩
    · rw [run] at roots
      exact ⟨roots, by simpa using unrooted, Nat.dvd_of_mod_eq_zero misaligned.1,
        Nat.dvd_of_mod_eq_zero misaligned.2, post.ok a t run⟩
    · rw [run] at roots
      exact ⟨roots, post.err e t run⟩
    · rw [run] at roots
      exact ⟨roots, post.fault t run⟩

end PageTableTree

/-! ## Translation -/

section Translation

variable {kept root va e : Nat} {m₀ : Mem} {mm : Mm}

theorem Growing.translate_eq (clean : CleanMask kept) (h : Growing kept root va m₀ mm)
    (tree : WellFormed m₀ root) (x : Nat) :
    PageTableTree.translate mm.mem root x = PageTableTree.translate m₀ root x := by
  rw [h.tree.translate_eq, tree.translate_eq]
  exact ((h.finer x).keeps clean (tree.leaves x) (leaf_rest_suffix m₀ root x)).2.2

theorem Paged.translate_page {m m' : Mem} (h : Paged root va e m m') (valid : isValid e = true)
    {x : Nat} (page : pageNumber x = pageNumber va) :
    PageTableTree.translate m' root x = some (pteAddr e + x % 2 ^ 12) := by
  rw [h.tree.translate_eq, h.here x (vaPath_eq_iff_page.mpr page)]
  simp only [leafOutput, isValid_mod, valid, Bool.not_true, Bool.false_eq_true, if_false, pteAddr_mod]

theorem Paged.translate_other {m m' : Mem} (h : Paged root va e m m') (tree : WellFormed m root)
    {x : Nat} (other : pageNumber x ≠ pageNumber va) :
    PageTableTree.translate m' root x = PageTableTree.translate m root x := by
  rw [h.tree.translate_eq, tree.translate_eq, h.others x fun eq => other (vaPath_eq_iff_page.mp eq)]

theorem Paged.held {m' : Mem} (h : Paged root va e mm.mem m') (held : HeldTables mm root) :
    HeldTables (mm.setMem m') root := by
  intro P p isPath reach
  rw [Mm.setMem_mem, h.tables P isPath] at reach
  exact held P p isPath reach

end Translation

/-- The tree of `s`, with the frames of its tables out of the allocator's reach. -/
structure TreeState.Sound (s : TreeState) : Prop where
  wf : s.mm.WF
  tree : WellFormed s.mm.mem s.tree.l0Pa
  held : HeldTables s.mm s.tree.l0Pa

/-- If `map_va` returns, the page is mapped and all other addresses translate as before; if it stops
otherwise, no translation has changed. The tree stays well formed in both cases. -/
theorem map_va_translation (s : TreeState) (sound : s.Sound) (va pa : Nat) (lt : pa < 2 ^ 48)
    (flags : MapFlags) :
    Prog.Post (PageTableTree.mapVa va pa flags) s
      (fun _ s' =>
        (∀ k < 4096, s'.tree.translateVa s'.mm.mem (va + k) = some (pa + k)) ∧
        (∀ x, pageNumber x ≠ pageNumber va →
          s'.tree.translateVa s'.mm.mem x = s.tree.translateVa s.mm.mem x) ∧ s'.Sound)
      (fun s' =>
        (∀ x, s'.tree.translateVa s'.mm.mem x = s.tree.translateVa s.mm.mem x) ∧ s'.Sound) := by
  refine (PageTableTree.mapVa_growing sound.wf sound.tree sound.held).mono ?_ ?_
  · rintro _ s' ⟨same, rooted, alva, alpa, mm, l3, grown, at_l3, view, paged⟩
    have rooted' : s'.tree.hasRoot = true := same.2.trans rooted
    have sound' : s'.Sound := by
      refine ⟨?_, ?_, ?_⟩
      · rw [view]
        exact grown.wf.setMem _
      · rw [same.1]
        exact paged.tree
      · rw [same.1, view]
        rw [view] at paged
        exact paged.held grown.held
    refine ⟨fun k hk => ?_, fun x other => ?_, sound'⟩
    · obtain ⟨page, off⟩ := pageNumber_add alva hk
      rw [PageTableTree.translateVa, if_pos rooted', same.1,
        paged.translate_page (isValid_pageEntry pa flags) page, pteAddr_pageEntry alpa lt, off]
    · rw [PageTableTree.translateVa, if_pos rooted', PageTableTree.translateVa, if_pos rooted, same.1,
        paged.translate_other grown.tree other]
      exact grown.translate_eq cleanMask_tree sound.tree x
  · rintro s' ⟨same, grown⟩
    refine ⟨fun x => ?_, grown.wf, ?_, ?_⟩
    · simp only [PageTableTree.translateVa, same.1, same.2]
      rw [grown.translate_eq cleanMask_tree sound.tree x]
    · rw [same.1]
      exact grown.tree
    · rw [same.1]
      exact grown.held

/-! ## A tree to start from -/

/-- An empty table as the root, in otherwise empty memory. -/
def TreeState.bare : TreeState where
  tree := { l0Pa := 0x40200000, tracked := [0x40200000], generation := 1, hasRoot := true }
  mm := Mm.boot 0x40201000 0x60000000

theorem TreeState.bare_entry (p i : Nat) : readPte bare.mm.mem p i = 0 :=
  Mem.load64_eq_zero fun _ _ => rfl

theorem TreeState.bare_sound : bare.Sound := by
  refine ⟨⟨by decide, by decide⟩, .empty (by decide) fun i _ => bare_entry _ i, fun P p isPath reach => ?_⟩
  obtain ⟨_, rfl⟩ := tableAt_empty (fun i _ => bare_entry _ i) isPath reach
  exact Or.inl (by decide)

/-- A page of the empty tree. -/
theorem map_va_translation_bare :
    Prog.Post (PageTableTree.mapVa 0x400000 0x50000000 .userRx) TreeState.bare
      (fun _ s' =>
        (∀ k < 4096, s'.tree.translateVa s'.mm.mem (0x400000 + k) = some (0x50000000 + k)) ∧
        (∀ x, pageNumber x ≠ pageNumber 0x400000 → s'.tree.translateVa s'.mm.mem x =
          TreeState.bare.tree.translateVa TreeState.bare.mm.mem x) ∧ s'.Sound)
      (fun s' =>
        (∀ x, s'.tree.translateVa s'.mm.mem x =
          TreeState.bare.tree.translateVa TreeState.bare.mm.mem x) ∧ s'.Sound) :=
  map_va_translation TreeState.bare TreeState.bare_sound 0x400000 0x50000000 (by decide) .userRx

/-! ## Permissions -/

/-- What the flags ask for EL0. -/
def MapFlags.granted (flags : MapFlags) : Access where
  read := flags.user
  write := flags.user && flags.writable
  execute := flags.executable

/-- If the leaf is a block, EL0 may read it and execute it. -/
def OpenBlock (l : Nat × List Nat) : Prop :=
  isValid l.1 = true → l.2 ≠ [] → l.1.testBit 6 = true ∧ l.1.testBit 54 = false

/-- A leaf that the split of a block leaves: open for reading and execution, and writable unless the
block was read-only. -/
structure Opened (readOnly : Bool) (l : Nat × List Nat) : Prop where
  valid : isValid l.1 = true
  short : l.2.length ≤ 1
  page : isTable l.1 = decide (l.2.length = 0)
  user : l.1.testBit 6 = true
  same : l.1.testBit 7 = readOnly
  execute : l.1.testBit 54 = false

section Permissions

variable {kept root va pa e : Nat} {flags : MapFlags} {m₀ : Mem} {mm : Mm} {l l' : Nat × List Nat}

theorem leafAccess_eq (l : Nat × List Nat) :
    leafAccess l =
      if !isValid l.1 ∨ l.2.length = 3 ∨ (l.2 = [] ∧ !isTable l.1) then none
      else some ⟨l.1.testBit 6, l.1.testBit 6 && !l.1.testBit 7, !l.1.testBit 54⟩ := rfl

theorem isValid_zero : isValid 0 = false := by decide

theorem Opened.access {readOnly : Bool} (h : Opened readOnly l) :
    leafAccess l = some ⟨true, !readOnly, true⟩ := by
  have short := h.short
  have last : l.2 = [] → isTable l.1 = true := fun nil => by
    rw [h.page, nil]
    rfl
  rw [leafAccess_eq, if_neg, h.user, h.same, h.execute]
  · simp
  · rintro (invalid | three | ⟨nil, no_page⟩)
    · simp [h.valid] at invalid
    · omega
    · simp [last nil] at no_page

theorem Finer.opened (clean : CleanMask kept) (h : Finer kept l l') (ok : LeafOk l)
    (valid : isValid l.1 = true) : isTable l.1 = false ∧ l.2 ≠ [] ∧ Opened (l.1.testBit 7) l' := by
  cases h with
  | empty invalid =>
    rw [invalid] at valid
    cases valid
  | @part e k rest _ block =>
    have short := (ok valid).1
    rw [List.length_cons] at short
    have bit : ∀ i, i ≠ 0 → i ≠ 1 → i < 12 ∨ 48 ≤ i → (partEntry kept rest.length e k).testBit i =
        ((e.testBit i && kept.testBit i || decide (i = 6)) &&
          (decide (i < 64) && !decide (i = 53 ∨ i = 54))) := fun i ne0 ne1 out => by
      rw [testBit_partEntry i ne0 ne1, testBit_pteAddr]
      have no_addr : ¬ (12 ≤ i ∧ i < 48) := by omega
      simp [no_addr]
    refine ⟨block, by simp, isValid_partEntry, Nat.le_of_succ_le_succ short,
      isTable_partEntry block, ?_, ?_, ?_⟩
    · simp [bit 6 (by decide) (by decide) (by decide)]
    · simp [bit 7 (by decide) (by decide) (by decide), clean.readOnly]
    · simp [bit 54 (by decide) (by decide) (by decide)]

/-- A leaf of the tree after a walk: as before, absent as before, or a part of a split block. -/
theorem Refined.access (clean : CleanMask kept) (h : Refined kept l l') (ok : LeafOk l)
    (on : l.2 <:+ vaPath va) :
    l' = l ∨ (isValid l.1 = false ∧ isValid l'.1 = false) ∨
      (isValid l.1 = true ∧ isTable l.1 = false ∧ l.2 ≠ [] ∧ Opened (l.1.testBit 7) l') := by
  induction h with
  | refl => exact Or.inl rfl
  | @tail l₁ l₂ before step ih =>
    have ok₁ := (Refined.keeps clean before ok on).1
    right
    rcases ih with rfl | ⟨invalid, invalid₁⟩ | ⟨valid, block, long, opened⟩
    · by_cases valid : isValid l₁.1 = true
      · obtain ⟨block, long, opened⟩ := step.opened clean ok valid
        exact Or.inr ⟨valid, block, long, opened⟩
      · cases step with
        | empty invalid => exact Or.inl ⟨invalid, isValid_zero⟩
        | part valid' _ => exact absurd valid' valid
    · cases step with
      | empty _ => exact Or.inl ⟨invalid, isValid_zero⟩
      | part valid' _ =>
        rw [invalid₁] at valid'
        cases valid'
    · obtain ⟨_, _, opened'⟩ := step.opened clean ok₁ opened.valid
      rw [opened.same] at opened'
      exact Or.inr ⟨valid, block, long, opened'⟩

theorem leafAccess_of_invalid (invalid : isValid l.1 = false) : leafAccess l = none := by
  rw [leafAccess_eq, if_pos (Or.inl (by simp [invalid]))]

theorem leafAccess_of_block (ok : LeafOk l) (valid : isValid l.1 = true) (long : l.2 ≠ []) :
    leafAccess l = some ⟨l.1.testBit 6, l.1.testBit 6 && !l.1.testBit 7, !l.1.testBit 54⟩ := by
  obtain ⟨short, _⟩ := ok valid
  rw [leafAccess_eq, if_neg]
  rintro (invalid | three | ⟨nil, _⟩)
  · simp [valid] at invalid
  · omega
  · exact long nil

/-- Splitting keeps the access of an open block. -/
theorem Refined.access_eq (clean : CleanMask kept) (h : Refined kept l l') (ok : LeafOk l)
    (on : l.2 <:+ vaPath va) (opened : OpenBlock l) : leafAccess l' = leafAccess l := by
  rcases h.access clean ok on with rfl | ⟨invalid, invalid'⟩ | ⟨valid, _, long, part⟩
  · rfl
  · rw [leafAccess_of_invalid invalid, leafAccess_of_invalid invalid']
  · obtain ⟨user, execute⟩ := opened valid long
    rw [part.access, leafAccess_of_block ok valid long, user, execute]
    simp

/-- What a page descriptor grants. -/
theorem leafAccess_pageEntry (pa : Nat) (flags : MapFlags) :
    leafAccess (pageEntry pa flags % 2 ^ 64, []) =
      some ⟨flags.user || !flags.writable, flags.writable == flags.user, flags.executable⟩ := by
  have bit : ∀ i, i < 12 ∨ 48 ≤ i → i < 64 → 2 ≤ i →
      (pageEntry pa flags % 2 ^ 64).testBit i = (pteAttrBits flags).testBit i := by
    intro i out word ge
    have one : pteValid.testBit i = false := testBit_of_lt (by decide : pteValid < 2 ^ 2) ge
    have type : pteTypePage.testBit i = false := testBit_of_lt (by decide : pteTypePage < 2 ^ 2) ge
    have no_addr : ¬ (12 ≤ i ∧ i < 48) := by omega
    rw [Nat.testBit_mod_two_pow, decide_eq_true word, Bool.true_and, pageEntry]
    simp only [Nat.testBit_or, testBit_pteAddr, one, type, decide_eq_false no_addr, Bool.and_false,
      Bool.false_or]
  have table : isTable (pageEntry pa flags) = true := by
    have type : pteTypePage.testBit 1 = true := by decide
    simp only [isTable, pageEntry, Nat.testBit_or, type, Bool.or_true, Bool.true_or]
  rw [leafAccess_eq, if_neg (by simp only [isValid_mod, isTable_mod, isValid_pageEntry, table]; simp),
    bit 6 (by decide) (by decide) (by decide), bit 7 (by decide) (by decide) (by decide),
    bit 54 (by decide) (by decide) (by decide)]
  obtain ⟨attr, r, w, x, u⟩ := flags
  cases attr <;> cases r <;> cases w <;> cases x <;> cases u <;> decide

theorem granted_iff (pa : Nat) (flags : MapFlags) :
    leafAccess (pageEntry pa flags % 2 ^ 64, []) = some flags.granted ↔
      flags.user = true ∨ flags.writable = true := by
  rw [leafAccess_pageEntry, MapFlags.granted]
  obtain ⟨attr, r, w, x, u⟩ := flags
  cases w <;> cases u <;> simp

/-- Another page below the same table of the last level. -/
def neighbour (va : Nat) : Nat :=
  va - va % 2 ^ 21 + ((va / 4096 % 512 + 1) % 512 * 4096 + va % 4096)

theorem neighbour_path (va : Nat) :
    vaL0Index (neighbour va) = vaL0Index va ∧ vaL1Index (neighbour va) = vaL1Index va ∧
      vaL2Index (neighbour va) = vaL2Index va ∧ vaL3Index (neighbour va) ≠ vaL3Index va := by
  unfold neighbour vaL0Index vaL1Index vaL2Index vaL3Index
  omega

theorem sharesLeaf_fst {m : Mem} {x : Nat} (h : SharesLeaf m root va x) :
    (leaf m root x).1 = (leaf m root va).1 ∧
      (leaf m root x).2.length = (leaf m root va).2.length :=
  Radix.walk_of_take rfl h

/-- After the walk, the pages other than that of `va` have the access they had if and only if the
block that the walk met, if it met one, is open. -/
theorem Growing.access_iff (clean : CleanMask kept) (h : Growing kept root va m₀ mm)
    (tree : WellFormed m₀ root) {l3 : Nat}
    (at_l3 : tableAt mm.mem root [vaL0Index va, vaL1Index va, vaL2Index va] = some l3) :
    (∀ x, pageNumber x ≠ pageNumber va → el0Access mm.mem root x = el0Access m₀ root x) ↔
      OpenBlock (leaf m₀ root va) := by
  constructor
  · intro framed valid long
    -- the neighbour lay in the block and is now a page of its own
    obtain ⟨i0, i1, i2, i3⟩ := neighbour_path va
    have suffix := leaf_rest_suffix m₀ root va
    have shares : SharesLeaf m₀ root va (neighbour va) := by
      obtain ⟨n, hn⟩ : ∃ n, (leaf m₀ root va).2.length = n + 1 :=
        ⟨_, (Nat.succ_pred (List.length_pos_iff.mpr long).ne').symm⟩
      have cut : 4 - (leaf m₀ root va).2.length ≤ 3 := by omega
      have front : (vaPath (neighbour va)).take 3 = (vaPath va).take 3 := by
        simp [vaPath, i0, i1, i2]
      have both := congrArg (List.take (4 - (leaf m₀ root va).2.length)) front
      rw [List.take_take, List.take_take, min_eq_left cut] at both
      exact both
    obtain ⟨first, count⟩ := sharesLeaf_fst shares
    have last : (leaf mm.mem root (neighbour va)).2 = [] := by
      have whole : vaL0Index (neighbour va) :: [vaL1Index (neighbour va), vaL2Index (neighbour va),
          vaL3Index (neighbour va)] =
          [vaL0Index va, vaL1Index va, vaL2Index va] ++ vaL3Index (neighbour va) :: [] := by
        rw [i0, i1, i2]
        rfl
      rw [leaf, Radix.walk_of_follow whole at_l3]
      rfl
    have access := framed (neighbour va) fun eq => i3 (by
      have paths := vaPath_eq_iff_page.mpr eq
      simp only [vaPath, List.cons.injEq, and_true] at paths
      exact paths.2.2.2)
    have ok := tree.leaves (neighbour va)
    have long' : (leaf m₀ root (neighbour va)).2 ≠ [] := by
      rw [← List.length_pos_iff, count]
      exact List.length_pos_iff.mpr long
    rw [← first] at valid ⊢
    rcases (h.finer (neighbour va)).access clean ok (leaf_rest_suffix _ _ _) with
      same | ⟨invalid, _⟩ | ⟨_, _, _, part⟩
    · rw [same] at last
      exact absurd last long'
    · rw [invalid] at valid
      cases valid
    · rw [el0Access, el0Access, part.access, leafAccess_of_block ok valid long'] at access
      simp only [Option.some.injEq, Access.mk.injEq] at access
      obtain ⟨user, _, execute⟩ := access
      exact ⟨user.symm, by simpa using execute.symm⟩
  · intro opened x _
    rcases h.near x with same | shares
    · rw [el0Access, el0Access, same]
    · obtain ⟨first, count⟩ := sharesLeaf_fst shares
      refine (h.finer x).access_eq clean (tree.leaves x) (leaf_rest_suffix _ _ _) ?_
      intro valid long
      rw [first] at valid ⊢
      refine opened valid ?_
      rw [← List.length_pos_iff, ← count]
      exact List.length_pos_iff.mpr long

end Permissions

/-- After `map_va` has returned, the page grants EL0 what the flags ask for and no other page has
changed, exactly if the mapping is not a read-only one of the kernel and the walk met no block that is
closed to EL0 for reading or for execution. -/
theorem map_va_permissions (s s' : TreeState) (sound : s.Sound) (va pa : Nat) (flags : MapFlags)
    (run : PageTableTree.mapVa va pa flags s = .ok () s') :
    (el0Access s'.mm.mem s'.tree.l0Pa va = some flags.granted ∧
      ∀ x, pageNumber x ≠ pageNumber va →
        el0Access s'.mm.mem s'.tree.l0Pa x = el0Access s.mm.mem s.tree.l0Pa x) ↔
      (flags.user = true ∨ flags.writable = true) ∧ OpenBlock (leaf s.mm.mem s.tree.l0Pa va) := by
  obtain ⟨same, _, _, _, mm, l3, grown, at_l3, _, paged⟩ :=
    (PageTableTree.mapVa_growing sound.wf sound.tree sound.held).ok () s' run
  rw [same.1]
  refine and_congr ?_ ?_
  · rw [el0Access, paged.here va rfl]
    exact granted_iff pa flags
  · rw [← grown.access_iff cleanMask_tree sound.tree at_l3]
    refine forall_congr' fun x => imp_congr_right fun other => ?_
    have others := paged.others x fun eq => other (vaPath_eq_iff_page.mp eq)
    rw [el0Access, others]
    rfl

/-- Text of a program in the empty tree. -/
theorem map_va_permissions_bare :
    (el0Access (PageTableTree.mapVa 0x400000 0x50000000 .userRx .bare).state.mm.mem
        (PageTableTree.mapVa 0x400000 0x50000000 .userRx .bare).state.tree.l0Pa 0x400000 =
          some MapFlags.userRx.granted ∧
      ∀ x, pageNumber x ≠ pageNumber 0x400000 →
        el0Access (PageTableTree.mapVa 0x400000 0x50000000 .userRx .bare).state.mm.mem
          (PageTableTree.mapVa 0x400000 0x50000000 .userRx .bare).state.tree.l0Pa x =
          el0Access TreeState.bare.mm.mem TreeState.bare.tree.l0Pa x) ↔
      (MapFlags.userRx.user = true ∨ MapFlags.userRx.writable = true) ∧
        OpenBlock (leaf TreeState.bare.mm.mem TreeState.bare.tree.l0Pa 0x400000) :=
  map_va_permissions .bare (PageTableTree.mapVa 0x400000 0x50000000 .userRx .bare).state
    TreeState.bare_sound 0x400000 0x50000000 .userRx (Outcome.eq_ok_of_value? (by decide +kernel))

/-- A read-only page of the kernel can be read and written from EL0. -/
theorem map_va_opens_kernel_page :
    TreeState.bare.Sound ∧
      (PageTableTree.mapVa 0x400000 0x50000000 ⟨.normalCacheable, true, false, false, false⟩
        .bare).value? = some () ∧
      el0Access (PageTableTree.mapVa 0x400000 0x50000000 ⟨.normalCacheable, true, false, false, false⟩
        .bare).state.mm.mem 0x40200000 0x400000 = some ⟨true, true, false⟩ ∧
      MapFlags.granted ⟨.normalCacheable, true, false, false, false⟩ = ⟨false, false, false⟩ :=
  ⟨TreeState.bare_sound, by decide +kernel, by decide +kernel, rfl⟩

end CapsuleOS
