import CapsuleOS.Arch.Shape

/-!
# What a mapping does

One specification for both implementations of the walk: from a shaped memory, however it ends, it has
grown the tables of one tree (`Grown`); if it returns, the page has its new descriptor, and every
other page that had a descriptor of its own keeps it (`Mapped`).
-/
namespace CapsuleOS

open Lib

def vaPath (va : Nat) : List Nat := [vaL0Index va, vaL1Index va, vaL2Index va, vaL3Index va]

theorem vaPath_eq_iff {a b : Nat} : vaPath a = vaPath b ↔ a / 4096 % 2 ^ 36 = b / 4096 % 2 ^ 36 := by
  simp only [vaPath, vaL0Index, vaL1Index, vaL2Index, vaL3Index, List.cons.injEq, and_true]
  omega

theorem vaL0Index_lt (va : Nat) : vaL0Index va < 512 := Nat.mod_lt _ (by decide)
theorem vaL1Index_lt (va : Nat) : vaL1Index va < 512 := Nat.mod_lt _ (by decide)
theorem vaL2Index_lt (va : Nat) : vaL2Index va < 512 := Nat.mod_lt _ (by decide)
theorem vaL3Index_lt (va : Nat) : vaL3Index va < 512 := Nat.mod_lt _ (by decide)

theorem vaPath_lt (va : Nat) : ∀ i ∈ vaPath va, i < 512 := by
  intro i mem
  simp only [vaPath, List.mem_cons, List.not_mem_nil, or_false] at mem
  rcases mem with rfl | rfl | rfl | rfl
  · exact vaL0Index_lt va
  · exact vaL1Index_lt va
  · exact vaL2Index_lt va
  · exact vaL3Index_lt va

/-- The page of `va` has the descriptor `e` in a table of the last level. -/
def Mapped (m : Mem) (root va e : Nat) : Prop :=
  ∃ l1 l2 l3, ref (readPte m root (vaL0Index va)) = some l1 ∧
    ref (readPte m l1 (vaL1Index va)) = some l2 ∧ ref (readPte m l2 (vaL2Index va)) = some l3 ∧
    readPte m l3 (vaL3Index va) = e

/-! ## The steps of the walk -/

/-- The site at the end of a path. -/
def siteAt (root : Nat) (path : List Nat) : Site := path.foldl Site.child (rootSite root)

theorem siteAt_append (root : Nat) (path : List Nat) (i : Nat) :
    siteAt root (path ++ [i]) = (siteAt root path).child i := by
  simp [siteAt]

theorem siteAt_path (root : Nat) (path : List Nat) : (siteAt root path).path = path := by
  induction path using List.reverseRecOn with
  | nil => rfl
  | append_singleton path i ih => rw [siteAt_append, Site.child, ih]

theorem siteAt_inner (root : Nat) (path : List Nat) : (siteAt root path).Inner ↔ path.length < 3 := by
  rw [Site.Inner, siteAt_path]

theorem siteAt_open (root : Nat) (path : List Nat) : (siteAt root path).Open root := by
  induction path using List.reverseRecOn with
  | nil => exact Or.inl rfl
  | append_singleton path i ih =>
    rw [siteAt_append]
    exact ih.child i

/-- What a mapping with the path `target` and the last descriptor `entry` preserves: it does so if
every single step of the walk does. A step links a fresh table, which is empty unless it replaces a
block, or writes the last descriptor. -/
structure WalkInvariant (root : Nat) (target : List Nat) (entry : Nat) (I : Sites → Mm → Prop) :
    Prop where
  still : ∀ ty mm mm', I ty mm → mm.Still mm' → I ty mm'
  skip : ∀ ty mm n, Shaped ty mm → I ty mm → mm.nextFreePage ≤ n → I ty (mm.skipTo n)
  link : ∀ ty mm path idx table pa mem, Shaped ty mm → I ty mm → path ++ [idx] <+: target →
    path.length < 3 → (path = [] → table = root) → ty table = some (siteAt root path) →
    ref (readPte mm.mem table idx) = none → mm.Candidate pa →
    (∀ q, pageSize ∣ q → q ≠ pa → (mm.claim .pageTable pa).mem.SameOn mem q pageSize) →
    (isValid (readPte mm.mem table idx) = false → mem = (mm.claim .pageTable pa).mem) →
    I (Function.update ty pa (some (siteAt root (path ++ [idx]))))
      ((mm.claim .pageTable pa).setMem (writePte mem table idx (tableEntry pa)))
  page : ∀ ty mm path idx table, Shaped ty mm → I ty mm → path ++ [idx] = target →
    ty table = some (siteAt root path) → I ty (mm.setMem (writePte mm.mem table idx entry))

theorem WalkInvariant.trivial {root : Nat} {target : List Nat} {entry : Nat} :
    WalkInvariant root target entry (fun _ _ => True) :=
  ⟨fun _ _ _ _ _ => True.intro, fun _ _ _ _ _ _ => True.intro,
    fun _ _ _ _ _ _ _ _ _ _ _ _ _ _ _ _ _ => True.intro, fun _ _ _ _ _ _ _ _ _ => True.intro⟩

/-- Tables have been added to the tree of `root`, and nothing else of it matters. -/
def Extended (root : Nat) (target : List Nat) (ty : Sites) (mm mm' : Mm) : Prop :=
  ∃ ty', Grown root target ty mm ty' mm'

/-- The same with an invariant. -/
def ExtendedBy (I : Sites → Mm → Prop) (root : Nat) (target : List Nat) (ty : Sites) (mm mm' : Mm) :
    Prop :=
  ∃ ty', Grown root target ty mm ty' mm' ∧ I ty' mm'

/-- The entry `idx` of `table` refers to the table `n`, which has the site at the end of `path`. -/
def Entered (I : Sites → Mm → Prop) (root : Nat) (target : List Nat) (ty : Sites) (mm : Mm)
    (table idx : Nat) (path : List Nat) (n : Nat) (mm' : Mm) : Prop :=
  ∃ ty', Grown root target ty mm ty' mm' ∧ I ty' mm' ∧ ty' n = some (siteAt root path) ∧
    ref (readPte mm'.mem table idx) = some n

/-! ## The masks and the encoder of a walk -/

/-- A mask that covers the address and the type of a table descriptor takes nothing from it. -/
theorem tableEntry_and {pa mask : Nat} (wide : (pteAddrMask ||| 3) &&& mask = pteAddrMask ||| 3) :
    tableEntry pa &&& mask = tableEntry pa := by
  have own : tableEntry pa &&& (pteAddrMask ||| 3) = tableEntry pa := by
    have addr : pteAddrMask &&& (pteAddrMask ||| 3) = pteAddrMask := by decide
    have low : pteValid &&& (pteAddrMask ||| 3) = pteValid ∧
        pteTypeTable &&& (pteAddrMask ||| 3) = pteTypeTable := by decide
    rw [tableEntry, pteAddr, Nat.and_or_distrib_right, Nat.and_or_distrib_right, Nat.and_assoc, addr,
      low.1, low.2]
  rw [← own, Nat.and_assoc, wide]

theorem PageTableTree.cleanEntry_tableEntry (pa : Nat) : cleanEntry (tableEntry pa) = tableEntry pa :=
  tableEntry_and (by decide)

/-- Both memory types carry the access flag already. -/
theorem pteAttrBits_or_af (flags : MapFlags) : pteAttrBits flags ||| pteAf = pteAttrBits flags := by
  obtain ⟨attr, r, w, x, u⟩ := flags
  cases attr <;> cases r <;> cases w <;> cases x <;> cases u <;> decide

namespace Walker

variable {S : Type}

/-- The masks keep every bit of a table descriptor, and the attributes are those of `mmu.rs`. -/
structure Standard (w : Walker S) : Prop where
  clean : ∀ pa, w.clean (tableEntry pa) = tableEntry pa
  cleanSplit : ∀ pa, w.cleanSplit (tableEntry pa) = tableEntry pa
  attrBits : ∀ flags, w.attrBits flags = pteAttrBits flags

namespace Standard

variable {w : Walker S} (h : w.Standard)

include h

theorem newTable_eq (table idx : Nat) :
    w.newTable table idx = (do
      let pa ← w.onMm allocPtPage
      w.write table idx (tableEntry pa)
      Prog.modify (w.track pa)
      return pa) := by
  simp only [newTable, h.clean]

theorem split_eq (size type table idx original : Nat) :
    w.split size type table idx original = (do
      let pa ← w.onMm allocPtPage
      Prog.modify (w.trackSplit pa)
      Prog.forEach (fun i => w.write pa i (blockPart w.keptBits size type original i))
        (List.range 512)
      w.write table idx (tableEntry pa)
      return pa) := by
  simp only [split, h.cleanSplit]

theorem mapPage_eq (root va pa : Nat) (flags : MapFlags) :
    w.mapPage root va pa flags = (do
      let l1 ← w.enterTable (fun _ _ _ => Prog.throw .notAllowed) root (vaL0Index va)
      let l2 ← w.enterTable w.shatterL1Block l1 (vaL1Index va)
      let l3 ← w.enterTable w.shatterL2Block l2 (vaL2Index va)
      w.write l3 (vaL3Index va) (pageEntry pa flags)) := by
  simp only [mapPage, leafEntry, h.attrBits, pageEntry]

end Standard

/-- The state holds the memory manager, and entering a page in a list leaves memory alone. -/
structure Lawful (w : Walker S) : Prop extends w.Standard where
  view_put : ∀ m s, w.view (w.put m s) = m
  track_still : ∀ pa s, (w.view s).Still (w.view (w.track pa s))
  trackSplit_still : ∀ pa s, (w.view s).Still (w.view (w.trackSplit pa s))

variable {w : Walker S} {s : S} {ty : Sites} {root : Nat} {target : List Nat} {table idx : Nat}

theorem write_ok (lawful : w.Lawful) (s : S) (table idx e : Nat) :
    ∃ s', w.write table idx e s = .ok () s' ∧
      w.view s' = (w.view s).setMem (writePte (w.view s).mem table idx e) :=
  ⟨_, rfl, lawful.view_put _ _⟩

/-- The page that a loop over its entries leaves. -/
def fill (f : Nat → Nat) (pa : Nat) (is : List Nat) (m : Mem) : Mem :=
  is.foldl (fun m i => writePte m pa i (f i)) m

theorem forEach_write_ok (lawful : w.Lawful) (f : Nat → Nat) (pa : Nat) (is : List Nat) (s : S) :
    ∃ s', Prog.forEach (fun i => w.write pa i (f i)) is s = .ok () s' ∧
      w.view s' = (w.view s).setMem (fill f pa is (w.view s).mem) := by
  induction is generalizing s with
  | nil => exact ⟨s, rfl, rfl⟩
  | cons i is ih =>
    obtain ⟨s₁, run₁, view₁⟩ := write_ok lawful s pa i (f i)
    obtain ⟨s₂, run₂, view₂⟩ := ih s₁
    refine ⟨s₂, ?_, ?_⟩
    · exact (Prog.bind_ok run₁).trans run₂
    · rw [view₂, view₁]
      rfl

theorem fill_sameOn {f : Nat → Nat} {pa q : Nat} (hp : pageSize ∣ pa) (hq : pageSize ∣ q)
    (ne : q ≠ pa) {is : List Nat} (bound : ∀ i ∈ is, i < 512) (m : Mem) :
    m.SameOn (fill f pa is m) q pageSize := by
  induction is generalizing m with
  | nil => exact Mem.SameOn.refl _ _ _
  | cons i is ih =>
    exact (writePte_sameOn hp hq ne (bound i (by simp))).trans
      (ih (fun j hj => bound j (by simp [hj])) _)

/-- Every entry of the page has been written or is as before. -/
theorem readPte_fill (f : Nat → Nat) (pa : Nat) (is : List Nat) (m : Mem) (j : Nat) :
    readPte (fill f pa is m) pa j = f j % 2 ^ 64 ∨
      readPte (fill f pa is m) pa j = readPte m pa j := by
  induction is generalizing m with
  | nil => exact Or.inr rfl
  | cons i is ih =>
    rcases ih (writePte m pa i (f i)) with new | old
    · exact Or.inl new
    · by_cases eq : j = i
      · subst eq
        left
        exact old.trans (readPte_writePte_same _ _ _ _)
      · right
        exact old.trans (readPte_writePte_of_ne eq)

/-- An exact version of the same for a loop over all entries. -/
theorem readPte_fill_mem (f : Nat → Nat) (pa : Nat) {is : List Nat} (m : Mem) {j : Nat} (mem : j ∈ is) :
    readPte (fill f pa is m) pa j = f j % 2 ^ 64 := by
  induction is generalizing m with
  | nil => simp at mem
  | cons i is ih =>
    by_cases later : j ∈ is
    · exact ih (writePte m pa i (f i)) later
    · obtain rfl : j = i := by simpa [later] using mem
      rcases readPte_fill f pa is (writePte m pa j (f j)) j with new | old
      · exact new
      · exact old.trans (readPte_writePte_same _ _ _ _)

section Made

variable (lawful : w.Lawful) (wf : (w.view s).WF)

/-- The cursor has moved up without a frame. -/
def Skipped (mm mm' : Mm) : Prop :=
  ∃ n, mm.nextFreePage ≤ n ∧ 4096 ∣ n - mm.nextFreePage ∧ mm' = mm.skipTo n

include lawful wf in
theorem allocPtPage_made :
    Prog.Post (w.onMm allocPtPage) s
      (fun pa s' => (w.view s).Candidate pa ∧ w.view s' = (w.view s).claim .pageTable pa)
      (fun s' => Skipped (w.view s) (w.view s')) := by
  refine Prog.Post.zoom (allocPage_post wf .pageTable) ?_ ?_
  · rintro pa m ⟨cand, rfl⟩
    exact ⟨cand, lawful.view_put _ _⟩
  · rintro m ⟨n, ge, grid, rfl⟩
    exact ⟨n, ge, grid, lawful.view_put _ _⟩

include lawful wf in
/-- A fresh table is empty. -/
theorem newTable_made (table idx : Nat) :
    Prog.Post (w.newTable table idx) s
      (fun pa s' => (w.view s).Candidate pa ∧
        (((w.view s).claim .pageTable pa).setMem (writePte ((w.view s).claim .pageTable pa).mem
          table idx (tableEntry pa))).Still (w.view s'))
      (fun s' => Skipped (w.view s) (w.view s')) := by
  rw [lawful.newTable_eq]
  refine Prog.Post.bind (allocPtPage_made lawful wf) ?_
  rintro pa s₁ ⟨cand, view₁⟩
  obtain ⟨s₂, run₂, view₂⟩ := write_ok lawful s₁ table idx (tableEntry pa)
  have run : (do w.write table idx (tableEntry pa); Prog.modify (w.track pa); return pa) s₁ =
      .ok pa (w.track pa s₂) := by
    rw [Prog.bind_ok run₂]
    rfl
  refine .of_ok ⟨pa, _, run, cand, ?_⟩
  rw [← view₁, ← view₂]
  exact lawful.track_still pa s₂

include lawful wf in
/-- The table that replaces a block holds its parts. -/
theorem split_made (size type table idx original : Nat) :
    Prog.Post (w.split size type table idx original) s
      (fun pa s' => (w.view s).Candidate pa ∧
        (((w.view s).claim .pageTable pa).setMem (writePte (fill
          (blockPart w.keptBits size type original) pa (List.range 512)
          ((w.view s).claim .pageTable pa).mem) table idx (tableEntry pa))).Still (w.view s'))
      (fun s' => Skipped (w.view s) (w.view s')) := by
  rw [lawful.split_eq]
  refine Prog.Post.bind (allocPtPage_made lawful wf) ?_
  rintro pa s₁ ⟨cand, view₁⟩
  have still := lawful.trackSplit_still pa s₁
  obtain ⟨s₂, run₂, view₂⟩ := forEach_write_ok lawful (blockPart w.keptBits size type original) pa
    (List.range 512) (w.trackSplit pa s₁)
  obtain ⟨s₃, run₃, view₃⟩ := write_ok lawful s₂ table idx (tableEntry pa)
  have run : (do
      Prog.modify (w.trackSplit pa)
      Prog.forEach (fun i => w.write pa i (blockPart w.keptBits size type original i))
        (List.range 512)
      w.write table idx (tableEntry pa)
      return pa) s₁ = .ok pa s₃ := by
    rw [Prog.bind_ok (Prog.modify_apply _ _), Prog.bind_ok run₂, Prog.bind_ok run₃]
    rfl
  refine .of_ok ⟨pa, s₃, run, cand, ?_, ?_, ?_⟩
  · rw [view₃, Mm.setMem_mem, view₂, Mm.setMem_mem, still.mem_eq, view₁]
    rfl
  · rw [view₃, Mm.setMem_next, view₂, Mm.setMem_next, still.next_eq, view₁, Mm.setMem_next]
  · rw [view₃, Mm.setMem_end, view₂, Mm.setMem_end, still.end_eq, view₁, Mm.setMem_end]

end Made

section Steps

variable {I : Sites → Mm → Prop} {entry : Nat} {path : List Nat} (inv : WalkInvariant root target entry I)
  (lawful : w.Lawful) (h : Shaped ty (w.view s)) (start : I ty (w.view s))

include inv h start in
/-- An allocation that fails keeps the invariant. -/
theorem extendedBy_of_skipped {s' : S} (skipped : Skipped (w.view s) (w.view s')) :
    ExtendedBy I root target ty (w.view s) (w.view s') := by
  obtain ⟨n, ge, grid, view⟩ := skipped
  rw [view]
  exact ⟨ty, Grown.skipTo h ge grid, inv.skip _ _ n h start ge⟩

variable (here : ty table = some (siteAt root path)) (on : path ++ [idx] <+: target)
  (inner : path.length < 3) (first : path = [] → table = root) (hidx : idx < 512)
  (old : ref (readPte (w.view s).mem table idx) = none)

include inv h start here on inner first hidx old in
/-- A fresh frame, filled with entries that refer to no table, has become the next table. -/
theorem entered_of_link {s' : S} {pa : Nat} {mem : Mem} (cand : (w.view s).Candidate pa)
    (same : ∀ q, pageSize ∣ q → q ≠ pa →
      ((w.view s).claim .pageTable pa).mem.SameOn mem q pageSize)
    (entries : path.length + 1 < 3 → ∀ i < 512, ref (readPte mem pa i) = none)
    (empty : isValid (readPte (w.view s).mem table idx) = false →
      mem = ((w.view s).claim .pageTable pa).mem)
    (still : (((w.view s).claim .pageTable pa).setMem
      (writePte mem table idx (tableEntry pa))).Still (w.view s')) :
    Entered I root target ty (w.view s) table idx (path ++ [idx]) pa (w.view s') := by
  have linked : Grown root target _ _ _ _ := Grown.link h cand .pageTable here
    ((siteAt_inner root path).mpr inner) (siteAt_open root path) hidx old same (fun child => by
      rw [← siteAt_append, siteAt_inner, List.length_append] at child
      exact entries child)
  have kept := inv.link ty _ path idx table pa _ h start on inner first here old cand same empty
  rw [← siteAt_append] at linked
  refine ⟨_, linked.still still, inv.still _ _ _ kept still, Function.update_self _ _ _, ?_⟩
  rw [still.mem_eq, Mm.setMem_mem, readPte_writePte_same, ref_mod]
  exact ref_tableEntry (cand.aligned h.wf) cand.lt_addr

include inv lawful h start here on inner first hidx old in
theorem newTable_post :
    Prog.Post (w.newTable table idx) s
      (fun n s' => Entered I root target ty (w.view s) table idx (path ++ [idx]) n (w.view s'))
      (fun s' => ExtendedBy I root target ty (w.view s) (w.view s')) := by
  refine (newTable_made lawful h.wf table idx).mono ?_ fun _ => extendedBy_of_skipped inv h start
  rintro pa s' ⟨cand, still⟩
  exact entered_of_link inv h start here on inner first hidx old cand
    (fun _ _ _ => Mem.SameOn.refl _ _ _) (fun _ i hi => by rw [readPte_claim hi, ref_zero])
    (fun _ => rfl) still

include inv lawful h start here on inner first hidx old in
theorem split_post {size type original : Nat}
    (block : isValid (readPte (w.view s).mem table idx) = true)
    (parts : path.length + 1 < 3 → ∀ i,
      isTable (blockPart w.keptBits size type original i) = false) :
    Prog.Post (w.split size type table idx original) s
      (fun n s' => Entered I root target ty (w.view s) table idx (path ++ [idx]) n (w.view s'))
      (fun s' => ExtendedBy I root target ty (w.view s) (w.view s')) := by
  refine (split_made lawful h.wf size type table idx original).mono ?_
    fun _ => extendedBy_of_skipped inv h start
  rintro pa s' ⟨cand, still⟩
  refine entered_of_link inv h start here on inner first hidx old cand ?_ ?_ ?_ still
  · exact fun q al ne => fill_sameOn (cand.aligned h.wf) al ne (fun i hi => List.mem_range.mp hi) _
  · intro child i hi
    rw [readPte_fill_mem _ _ _ (List.mem_range.mpr hi), ref_mod]
    exact ref_eq_none.mpr fun _ => parts child i
  · intro invalid
    rw [block] at invalid
    cases invalid

end Steps

section Walk

variable {I : Sites → Mm → Prop} {entry : Nat} {path : List Nat} (inv : WalkInvariant root target entry I)
  (lawful : w.Lawful) (h : Shaped ty (w.view s)) (start : I ty (w.view s))

include inv lawful h start in
/-- The way into the next level, given what happens to a block. -/
theorem enterTable_post {onBlock : Nat → Nat → Nat → Prog S Status Nat}
    (here : ty table = some (siteAt root path)) (on : path ++ [idx] <+: target)
    (inner : path.length < 3) (first : path = [] → table = root) (hidx : idx < 512)
    (block : ref (readPte (w.view s).mem table idx) = none →
      isValid (readPte (w.view s).mem table idx) = true →
      isTable (readPte (w.view s).mem table idx) = false →
      Prog.Post (onBlock table idx (readPte (w.view s).mem table idx)) s
        (fun n s' => Entered I root target ty (w.view s) table idx (path ++ [idx]) n (w.view s'))
        (fun s' => ExtendedBy I root target ty (w.view s) (w.view s'))) :
    Prog.Post (w.enterTable onBlock table idx) s
      (fun n s' => Entered I root target ty (w.view s) table idx (path ++ [idx]) n (w.view s'))
      (fun s' => ExtendedBy I root target ty (w.view s) (w.view s')) := by
  unfold enterTable
  refine Prog.Post.get_bind ?_
  simp only
  split_ifs with follow valid
  · -- a table descriptor is followed
    have link : ref (readPte (w.view s).mem table idx) =
        some (pteAddr (readPte (w.view s).mem table idx)) := by
      rw [ref, if_pos follow]
    have site := h.placed table _ here ((siteAt_inner root path).mpr inner) idx hidx _ link
    rw [← siteAt_append] at site
    exact .pure ⟨ty, Grown.refl h, start, site, link⟩
  · have not_table : isTable (readPte (w.view s).mem table idx) = false := by
      simpa [valid] using follow
    exact block (ref_eq_none.mpr fun _ => not_table) valid not_table
  · exact newTable_post inv lawful h start here on inner first hidx
      (ref_eq_none.mpr fun contra => absurd contra valid)

/-- The rest of a walk runs from the tables that its first part has added. -/
theorem ExtendedBy.of_grown {ty ty' : Sites} {mm mm' mm'' : Mm} (g : Grown root target ty mm ty' mm')
    (h : ExtendedBy I root target ty' mm' mm'') : ExtendedBy I root target ty mm mm'' := by
  obtain ⟨ty'', g', kept⟩ := h
  exact ⟨ty'', g.trans g', kept⟩

end Walk

/-- A mapping keeps every invariant that its steps keep. -/
theorem mapPage_keeps {I : Sites → Mm → Prop} {va pa : Nat} {flags : MapFlags}
    (inv : WalkInvariant root (vaPath va) (pageEntry pa flags) I) (lawful : w.Lawful)
    (h : Shaped ty (w.view s)) (start : I ty (w.view s)) (top : ty root = some (rootSite root)) :
    Prog.Post (w.mapPage root va pa flags) s
      (fun _ s' => ExtendedBy I root (vaPath va) ty (w.view s) (w.view s') ∧
        Mapped (w.view s').mem root va (pageEntry pa flags % 2 ^ 64))
      (fun s' => ExtendedBy I root (vaPath va) ty (w.view s) (w.view s')) := by
  have i0 := vaL0Index_lt va
  have i1 := vaL1Index_lt va
  have i2 := vaL2Index_lt va
  have on0 : [] ++ [vaL0Index va] <+: vaPath va := ⟨[vaL1Index va, vaL2Index va, vaL3Index va], rfl⟩
  have on1 : [vaL0Index va] ++ [vaL1Index va] <+: vaPath va := ⟨[vaL2Index va, vaL3Index va], rfl⟩
  have on2 : [vaL0Index va, vaL1Index va] ++ [vaL2Index va] <+: vaPath va := ⟨[vaL3Index va], rfl⟩
  have here : ty root = some (siteAt root []) := top
  rw [lawful.mapPage_eq]
  -- level 0: there are no blocks
  refine Prog.Post.bind (enterTable_post inv lawful h start here on0 (by decide) (fun _ => rfl) i0
    fun _ _ _ => .throw ⟨ty, Grown.refl h, start⟩) ?_
  rintro l1 s₁ ⟨ty₁, g₁, kept₁, t1, r1⟩
  -- level 1
  refine Prog.Post.bind (Prog.Post.mono (enterTable_post inv lawful g₁.shaped kept₁ t1 on1 (by simp)
    (fun nil => by simp at nil) i1 fun old valid block => split_post inv lawful g₁.shaped kept₁ t1 on1
      (by simp) (fun nil => by simp at nil) i1 old valid fun _ i => isTable_blockPart block)
    (fun _ _ out => out) fun _ stop => ExtendedBy.of_grown g₁ stop) ?_
  rintro l2 s₂ ⟨ty₂, g₂, kept₂, t2, r2⟩
  -- level 2: the parts of a block are pages
  refine Prog.Post.bind (Prog.Post.mono (enterTable_post inv lawful g₂.shaped kept₂ t2 on2 (by simp)
    (fun nil => by simp at nil) i2 fun old valid _ => split_post inv lawful g₂.shaped kept₂ t2 on2
      (by simp) (fun nil => by simp at nil) i2 old valid fun inner => absurd inner (by simp))
    (fun _ _ out => out) fun _ stop => ExtendedBy.of_grown (g₁.trans g₂) stop) ?_
  rintro l3 s₃ ⟨ty₃, g₃, kept₃, t3, r3⟩
  obtain ⟨s₄, run₄, view₄⟩ := write_ok lawful s₃ l3 (vaL3Index va) (pageEntry pa flags)
  have leaf : ¬ (siteAt root [vaL0Index va, vaL1Index va, vaL2Index va]).Inner := by
    simp [siteAt_inner]
  have last : Grown root (vaPath va) ty₃ (w.view s₃) ty₃ (w.view s₄) := by
    rw [view₄]
    exact Grown.write g₃.shaped t3 (vaL3Index_lt va) (siteAt_open root _)
      (fun inner => absurd inner leaf) (fun nil => absurd nil (by simp [siteAt_path]))
      (fun inner => absurd inner leaf) (fun _ => by simp [siteAt_path, vaPath])
  have kept₄ : I ty₃ (w.view s₄) := by
    rw [view₄]
    exact inv.page ty₃ _ _ (vaL3Index va) l3 g₃.shaped kept₃ rfl t3
  have g₂₄ := g₃.trans last
  have g₁₄ := g₂.trans g₂₄
  have inner_at : ∀ path : List Nat, path.length < 3 → (siteAt root path).Inner := fun path lt =>
    (siteAt_inner root path).mpr lt
  refine .of_ok ⟨(), s₄, run₄, ⟨ty₃, g₁.trans g₁₄, kept₄⟩, l1, l2, l3, ?_, ?_, ?_, ?_⟩
  · exact g₁₄.keeps root _ (g₁.le _ _ here) (inner_at _ (by simp)) _ i0 l1 r1
  · exact g₂₄.keeps l1 _ (g₂.le _ _ t1) (inner_at _ (by simp)) _ i1 l2 r2
  · exact last.keeps l2 _ (g₃.le _ _ t2) (inner_at _ (by simp)) _ i2 l3 r3
  · rw [view₄, Mm.setMem_mem, readPte_writePte_same]

theorem mapPage_post (lawful : w.Lawful) (h : Shaped ty (w.view s))
    (top : ty root = some (rootSite root)) (va pa : Nat) (flags : MapFlags) :
    Prog.Post (w.mapPage root va pa flags) s
      (fun _ s' => Extended root (vaPath va) ty (w.view s) (w.view s') ∧
        Mapped (w.view s').mem root va (pageEntry pa flags % 2 ^ 64))
      (fun s' => Extended root (vaPath va) ty (w.view s) (w.view s')) := by
  have forget : ∀ mm', ExtendedBy (fun _ _ => True) root (vaPath va) ty (w.view s) mm' →
      Extended root (vaPath va) ty (w.view s) mm' := fun _ ⟨ty', grown, _⟩ => ⟨ty', grown⟩
  exact (mapPage_keeps .trivial lawful h True.intro top).mono
    (fun _ _ out => ⟨forget _ out.1, out.2⟩) fun _ => forget _

end Walker

end CapsuleOS
