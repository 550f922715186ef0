import CapsuleOS.Arch.MapVa
import CapsuleOS.Lib.Runs

/-!
# The list of table pages

A tree lists its table pages, to free them and to validate itself. `Tracked` says that the list is
exact: it holds every table of the lower half once and nothing else. A mapping keeps it exact as long
as the list has room for the tables that are missing on the way, and the address is in the lower half
if any are missing: a full list drops pages without a word, and a table of the upper half is listed
although nobody looks for it there.
-/
namespace CapsuleOS

open Lib

/-- The path leads into the lower half. -/
def LowerPath (P : List Nat) : Prop := ∀ i ∈ P.head?, i < 256

/-- The page is a table that is reached through the lower half. -/
def LowerTable (m : Mem) (root p : Nat) : Prop :=
  ∃ P, IsPath P ∧ LowerPath P ∧ tableAt m root P = some p

theorem nodup_snoc {l : List Nat} {a : Nat} (h : l.Nodup) (new : a ∉ l) : (l ++ [a]).Nodup :=
  (List.perm_append_singleton a l).nodup_iff.mpr (List.nodup_cons.mpr ⟨new, h⟩)

/-! ## Surveys -/

namespace Survey

/-- All is in order so far: only pages of `pages` have been found, none of them twice. -/
structure Good (pages : List Nat) (s : Survey) : Prop where
  ok : s.ok = true
  nodup : s.reachable.Nodup
  sub : s.reachable ⊆ pages

variable {pages : List Nat} {s s' : Survey} {m : Mem}

/-- Afterwards all is still in order and nothing that was found is lost. -/
structure Goes (pages : List Nat) (s s' : Survey) : Prop where
  good : Good pages s'
  grows : s.reachable ⊆ s'.reachable

theorem Goes.refl (h : Good pages s) : Goes pages s s := ⟨h, fun _ mem => mem⟩

theorem Goes.trans {s'' : Survey} (h : Goes pages s s') (h' : Goes pages s' s'') : Goes pages s s'' :=
  ⟨h'.good, List.Subset.trans h.grows h'.grows⟩

theorem trackReachable_goes (short : pages.length ≤ maxTracked) (h : Good pages s) {pa : Nat}
    (listed : pa ∈ pages) :
    Goes pages s (s.trackReachable pa) ∧ pa ∈ (s.trackReachable pa).reachable := by
  unfold trackReachable
  split_ifs with full seen
  · -- the array is full only when it holds all pages
    refine ⟨.refl h, ?_⟩
    have all := h.nodup.subperm h.sub
    exact (all.perm_of_length_le (by omega)).mem_iff.mpr listed
  · exact ⟨.refl h, seen⟩
  · refine ⟨⟨⟨h.ok, ?_, ?_⟩, List.subset_append_left _ _⟩, by simp⟩
    · exact nodup_snoc h.nodup seen
    · exact List.append_subset.mpr ⟨h.sub, by simpa using listed⟩

/-- A loop over entries, given what each visit does. -/
theorem entries_goes {n t : Nat} {f : Nat → Survey → Survey} {D : Nat → Survey → Prop}
    (later : ∀ i s s', D i s → s.reachable ⊆ s'.reachable → D i s')
    (step : ∀ i < n, isValid (readPte m t i) = true → ∀ s, Good pages s →
      Goes pages s (f (readPte m t i) s) ∧ D i (f (readPte m t i) s))
    (h : Good pages s) :
    Goes pages s (entries n m t f s) ∧
      ∀ i < n, isValid (readPte m t i) = true → D i (entries n m t f s) := by
  unfold entries
  induction n with
  | zero => exact ⟨.refl h, fun i hi => absurd hi (Nat.not_lt_zero i)⟩
  | succ n ih =>
    obtain ⟨goes, dones⟩ := ih fun i hi => step i (by omega)
    rw [List.range_succ, List.foldl_append]
    simp only [List.foldl_cons, List.foldl_nil]
    split_ifs with valid
    · obtain ⟨goes', done'⟩ := step n (by omega) valid _ goes.good
      refine ⟨goes.trans goes', fun i hi hv => ?_⟩
      rcases Nat.lt_succ_iff_lt_or_eq.mp hi with lt | rfl
      · exact later i _ _ (dones i lt hv) goes'.grows
      · exact done'
    · refine ⟨goes, fun i hi hv => ?_⟩
      rcases Nat.lt_succ_iff_lt_or_eq.mp hi with lt | rfl
      · exact dones i lt hv
      · exact absurd hv valid

/-- A path below a table. -/
def Below (depth : Nat) (Q : List Nat) : Prop := Q ≠ [] ∧ Q.length ≤ depth ∧ ∀ i ∈ Q, i < 512

/-- The tables below `t` have all been found. -/
def Found (m : Mem) (depth t : Nat) (s : Survey) : Prop :=
  ∀ Q q, Below depth Q → tableAt m t Q = some q → q ∈ s.reachable

theorem table_goes (short : pages.length ≤ maxTracked) (depth t : Nat)
    (listed : ∀ Q q, Below depth Q → tableAt m t Q = some q → q ∈ pages)
    (last : ∀ Q q, Q.length = depth → (∀ i ∈ Q, i < 512) → tableAt m t Q = some q → ∀ i < 512,
      isValid (readPte m q i) = true → isTable (readPte m q i) = true) (h : Good pages s) :
    Goes pages s (table m depth t s) ∧ Found m depth t (table m depth t s) := by
  induction depth generalizing t s with
  | zero =>
    have loop := entries_goes (n := 512) (t := t) (m := m)
      (f := fun e s => if isTable e then s else { s with ok := false }) (D := fun _ _ => True)
      (fun _ _ _ _ _ => trivial) (fun i hi valid s h => by
        simp only [last [] t rfl (by simp) rfl i hi valid, if_true]
        exact ⟨.refl h, trivial⟩) h
    refine ⟨loop.1, fun Q q below _ => ?_⟩
    obtain ⟨nonempty, len, _⟩ := below
    exact absurd (List.eq_nil_of_length_eq_zero (Nat.le_zero.mp len)) nonempty
  | succ depth ih =>
    have follow : ∀ i Q q, ref (readPte m t i) = some q → ∀ r, tableAt m q Q = some r →
        tableAt m t (i :: Q) = some r := fun i Q q link r reach => by
      rw [tableAt, Radix.follow, link]
      exact reach
    have loop := entries_goes (n := 512) (t := t) (m := m)
      (f := fun e s =>
        if isTable e then table m depth (pteAddr e) (s.trackReachable (pteAddr e)) else s)
      (D := fun i s => ∀ q, ref (readPte m t i) = some q → q ∈ s.reachable ∧ Found m depth q s)
      (fun i s s' done grows q link =>
        ⟨grows (done q link).1, fun Q r below reach => grows ((done q link).2 Q r below reach)⟩)
      (fun i hi valid s h => by
        split_ifs with isT
        · have link : ref (readPte m t i) = some (pteAddr (readPte m t i)) := by simp [ref, valid, isT]
          obtain ⟨goes, mem⟩ := trackReachable_goes short h
            (listed [i] _ ⟨by simp, by simp, by simpa using hi⟩ (follow i [] _ link _ rfl))
          obtain ⟨goes', found⟩ := ih (pteAddr (readPte m t i))
            (fun Q q below reach => listed (i :: Q) q
              ⟨by simp, by simpa using below.2.1, by simpa using ⟨hi, below.2.2⟩⟩
              (follow i Q _ link q reach))
            (fun Q q len bound reach => last (i :: Q) q (by simpa using len)
              (by simpa using ⟨hi, bound⟩) (follow i Q _ link q reach)) goes.good
          refine ⟨goes.trans goes', fun q hq => ?_⟩
          rw [link] at hq
          cases hq
          exact ⟨goes'.grows mem, found⟩
        · refine ⟨.refl h, fun q hq => ?_⟩
          exact absurd (ref_eq_some.mp hq).1.2 isT) h
    refine ⟨loop.1, fun Q r below reach => ?_⟩
    obtain ⟨nonempty, len, bound⟩ := below
    cases Q with
    | nil => exact absurd rfl nonempty
    | cons i Q =>
      rw [tableAt, Radix.follow] at reach
      obtain ⟨q, link, rest⟩ := Option.bind_eq_some_iff.mp reach
      obtain ⟨mem, found⟩ := loop.2 i (bound i (by simp)) (ref_eq_some.mp link).1.1 q link
      cases Q with
      | nil =>
        cases rest
        exact mem
      | cons j Q =>
        exact found (j :: Q) r ⟨by simp, by simpa using len, fun k mem => bound k (by simp [mem])⟩ rest

end Survey

/-! ## An exact list -/

structure Tracked (s : TreeState) : Prop where
  rooted : s.tree.hasRoot = true
  nodup : s.tree.tracked.Nodup
  room : s.tree.tracked.length ≤ maxTracked
  exact : ∀ p, p ∈ s.tree.tracked ↔ LowerTable s.mm.mem s.tree.l0Pa p
  ram : ∀ p ∈ s.tree.tracked, ramBase ≤ p ∧ p < ramBase + ramSize
  inUse : ∀ p ∈ s.tree.tracked, s.mm.tag p ≠ .free

/-- Valid descriptors of the last level are pages. -/
def PagesTyped (m : Mem) (root : Nat) : Prop :=
  ∀ va, (leaf m root va).2 = [] → isValid (leaf m root va).1 = true → isTable (leaf m root va).1 = true

/-- An address with the indices of a given path. -/
theorem exists_va (i0 i1 i2 i3 : Nat) (h0 : i0 < 512) (h1 : i1 < 512) (h2 : i2 < 512) (h3 : i3 < 512) :
    ∃ va, vaPath va = [i0, i1, i2, i3] := by
  refine ⟨((i0 * 512 + i1) * 512 + i2) * 2 ^ 21 + i3 * 2 ^ 12, ?_⟩
  simp only [vaPath, vaL0Index, vaL1Index, vaL2Index, vaL3Index, List.cons.injEq, and_true]
  omega

section Exact

variable {s : TreeState} {m : Mem} {root : Nat}

/-- Every entry of a table of the last level is the leaf of an address. -/
theorem leaf_of_tableAt {P : List Nat} {t i : Nat} (len : P.length = 3) (bound : ∀ j ∈ P, j < 512)
    (reach : tableAt m root P = some t) (hi : i < 512) : ∃ va, leaf m root va = (readPte m t i, []) := by
  obtain ⟨a, b, c, rfl⟩ := List.length_eq_three.mp len
  obtain ⟨va, path⟩ := exists_va a b c i (bound a (by simp)) (bound b (by simp)) (bound c (by simp)) hi
  refine ⟨va, ?_⟩
  have split : vaL0Index va :: [vaL1Index va, vaL2Index va, vaL3Index va] = [a, b, c] ++ i :: [] := path
  rw [leaf, Radix.walk_of_follow split reach]
  rfl

theorem lower_root {m : Mem} : LowerTable m root root := ⟨[], ⟨by simp, by simp⟩, by simp [LowerPath], rfl⟩

/-- The entries of the root are tables or invalid. -/
theorem WellFormed.root_table (h : WellFormed m root) {i : Nat} (hi : i < 512)
    (valid : isValid (readPte m root i) = true) : isTable (readPte m root i) = true := by
  by_contra block
  obtain ⟨va, path⟩ := exists_va i 0 0 0 hi (by decide) (by decide) (by decide)
  obtain ⟨i0, i1, i2, i3⟩ : vaL0Index va = i ∧ vaL1Index va = 0 ∧ vaL2Index va = 0 ∧ vaL3Index va = 0 := by
    simpa [vaPath] using path
  have stop : leaf m root va = (readPte m root i, [0, 0, 0]) := by
    simp [leaf, Radix.walk, ref, valid, block, i0, i1, i2, i3]
  have ok := h.leaves va
  rw [stop] at ok
  exact absurd (ok valid).1 (by simp)

/-- An exact list passes the validation. -/
theorem Tracked.validate (h : Tracked s) (tree : WellFormed s.mm.mem s.tree.l0Pa)
    (typed : PagesTyped s.mm.mem s.tree.l0Pa) : s.tree.validate s.mm.mem = true := by
  have start := Survey.trackReachable_goes h.room (s := ⟨[], true⟩) ⟨rfl, by simp, by simp⟩
    ((h.exact _).mpr lower_root)
  have step : ∀ i Q q, i < 256 → Q.length ≤ 2 → (∀ j ∈ Q, j < 512) →
      tableAt s.mm.mem s.tree.l0Pa (i :: Q) = some q → q ∈ s.tree.tracked := fun i Q q hi len bound reach =>
    (h.exact q).mpr ⟨i :: Q, ⟨Nat.succ_le_succ len, by simpa using ⟨by omega, bound⟩⟩,
      by simpa [LowerPath] using hi, reach⟩
  have follow : ∀ i Q q, ref (readPte s.mm.mem s.tree.l0Pa i) = some q → ∀ r,
      tableAt s.mm.mem q Q = some r → tableAt s.mm.mem s.tree.l0Pa (i :: Q) = some r := by
    intro i Q q link r reach
    rw [tableAt, Radix.follow, link]
    exact reach
  have loop := Survey.entries_goes (n := 256) (t := s.tree.l0Pa) (m := s.mm.mem)
    (f := fun e t => if isTable e then Survey.table s.mm.mem 2 (pteAddr e)
      (t.trackReachable (pteAddr e)) else { t with ok := false })
    (D := fun i t => ∀ q, ref (readPte s.mm.mem s.tree.l0Pa i) = some q →
      q ∈ t.reachable ∧ Survey.Found s.mm.mem 2 q t)
    (fun i t t' done grows q link =>
      ⟨grows (done q link).1, fun Q r below reach => grows ((done q link).2 Q r below reach)⟩)
    (fun i hi valid t good => by
      have isT := tree.root_table (by omega) valid
      have link : ref (readPte s.mm.mem s.tree.l0Pa i) =
          some (pteAddr (readPte s.mm.mem s.tree.l0Pa i)) := by simp [ref, valid, isT]
      simp only [isT, if_true]
      obtain ⟨goes, mem⟩ := Survey.trackReachable_goes h.room good
        (step i [] _ hi (by simp) (by simp) (follow i [] _ link _ rfl))
      obtain ⟨goes', found⟩ := Survey.table_goes h.room 2 (pteAddr (readPte s.mm.mem s.tree.l0Pa i))
        (fun Q q below reach => step i Q q hi below.2.1 below.2.2 (follow i Q _ link q reach))
        (fun Q q len bound reach j hj valid' => by
          obtain ⟨va, eq⟩ := leaf_of_tableAt (P := i :: Q) (by simpa using len)
            (by simpa using ⟨by omega, bound⟩) (follow i Q _ link q reach) hj
          have page := typed va
          rw [eq] at page
          exact page rfl valid') goes.good
      refine ⟨goes.trans goes', fun q hq => ?_⟩
      rw [link] at hq
      cases hq
      exact ⟨goes'.grows mem, found⟩) start.1.good
  obtain ⟨goes, found⟩ := loop
  have all : ∀ p ∈ s.tree.tracked, p ∈ (Survey.lowerHalf s.mm.mem s.tree.l0Pa
      (Survey.trackReachable s.tree.l0Pa ⟨[], true⟩)).reachable := by
    intro p listed
    obtain ⟨P, isPath, lower, reach⟩ := (h.exact p).mp listed
    cases P with
    | nil =>
      cases reach
      exact goes.grows start.2
    | cons i Q =>
      have hi : i < 256 := lower i (by simp)
      rw [tableAt, Radix.follow] at reach
      obtain ⟨q, link, rest⟩ := Option.bind_eq_some_iff.mp reach
      obtain ⟨mem, below⟩ := found i hi (ref_eq_some.mp link).1.1 q link
      cases Q with
      | nil =>
        cases rest
        exact mem
      | cons j Q =>
        exact below (j :: Q) p ⟨by simp, Nat.le_of_succ_le_succ isPath.1,
          fun k mem => isPath.2 k (by simp [mem])⟩ rest
  unfold PageTableTree.validate
  simp only [h.rooted, Bool.not_true, Bool.false_eq_true, if_false, Bool.and_eq_true,
    List.all_eq_true, Bool.or_eq_true, beq_iff_eq, List.contains_iff_mem]
  exact ⟨⟨goes.good.ok, fun p listed => Or.inr (all p listed)⟩, fun p mem => goes.good.sub mem⟩

/-! ## Giving the pages back -/

theorem paToPfn_ne {p q : Nat} (alp : pageSize ∣ p) (alq : pageSize ∣ q)
    (ramp : ramBase ≤ p ∧ p < ramBase + ramSize) (ramq : ramBase ≤ q ∧ q < ramBase + ramSize) (ne : p ≠ q) : paToPfn p ≠ paToPfn q := by
  rw [paToPfn_of_ge ramp.1 (by have := ramp.2; unfold ramBase ramSize at this; omega),
    paToPfn_of_ge ramq.1 (by have := ramq.2; unfold ramBase ramSize at this; omega)]
  unfold pageSize ramBase at *
  omega

/-- Distinct pages in use can be freed, one after the other. -/
theorem dropPhysPages_returns {pas : List Nat} {mm : Mm} (nodup : pas.Nodup)
    (al : ∀ p ∈ pas, pageSize ∣ p) (ram : ∀ p ∈ pas, ramBase ≤ p ∧ p < ramBase + ramSize)
    (inUse : ∀ p ∈ pas, mm.tag p ≠ .free) :
    ∃ mm', dropPhysPages pas mm = .ok () mm' ∧ mm'.freeLog = mm.freeLog ++ pas := by
  induction pas generalizing mm with
  | nil => exact ⟨mm, rfl, by simp⟩
  | cons p pas ih =>
    obtain ⟨lo, hi⟩ := ram p (by simp)
    have pfn : paToPfn p < maxPages := by
      rw [paToPfn_of_ge lo (by unfold ramBase ramSize at hi; omega)]
      unfold maxPages ramBase ramSize at *
      omega
    have nonzero : p ≠ 0 := by
      unfold ramBase at lo
      omega
    have first : dropPhysPage p mm = .ok () (mm.release p) := by
      rw [dropPhysPage, if_neg nonzero, freePage, if_neg (Nat.not_le.mpr pfn),
        if_neg (inUse p (by simp))]
    obtain ⟨fresh, nodup'⟩ := List.nodup_cons.mp nodup
    obtain ⟨mm', rest, log⟩ := @ih (mm.release p) nodup' (fun q mem => al q (by simp [mem]))
      (fun q mem => ram q (by simp [mem])) fun q mem => by
        have other : paToPfn q ≠ paToPfn p := paToPfn_ne (al q (by simp [mem])) (al p (by simp))
          (ram q (by simp [mem])) ⟨lo, hi⟩ (by rintro rfl; exact fresh mem)
        have same : (mm.release p).tag q = mm.tag q := by
          simp only [Mm.tag, Mm.release, Mm.setTag, if_neg other]
        rw [same]
        exact inUse q (by simp [mem])
    refine ⟨mm', (Prog.bind_ok first).trans rest, ?_⟩
    rw [log, Mm.release]
    simp

/-- `free_tree` returns and gives back the listed pages, each once. -/
theorem Tracked.freeTree (h : Tracked s) (tree : WellFormed s.mm.mem s.tree.l0Pa) :
    ∃ s', PageTableTree.freeTree s = .ok () s' ∧
      s'.mm.freeLog = s.mm.freeLog ++ s.tree.tracked.reverse := by
  have aligned : ∀ p ∈ s.tree.tracked.reverse, pageSize ∣ p := fun p mem => by
    obtain ⟨P, _, _, reach⟩ := (h.exact p).mp (List.mem_reverse.mp mem)
    exact tableAt_aligned tree.aligned reach
  obtain ⟨mm', run, log⟩ := dropPhysPages_returns (List.nodup_reverse.mpr h.nodup) aligned
    (fun p mem => h.ram p (List.mem_reverse.mp mem)) fun p mem => h.inUse p (List.mem_reverse.mp mem)
  have dropped : TreeState.onMm (dropPhysPages s.tree.tracked.reverse) s = .ok () { s with mm := mm' } := by
    simp [TreeState.onMm, Prog.zoom, run]
  refine ⟨{ tree := .empty, mm := mm' }, ?_, log⟩
  simp only [PageTableTree.freeTree, Prog.bind_apply, Prog.get_apply, h.rooted, if_true, dropped,
    Prog.modify_apply]

end Exact

/-! ## What a step does to the list -/

/-- The list after a page has been entered. -/
def trackedWith (pa : Nat) (pages : List Nat) : List Nat :=
  if pages.length ≥ maxTracked then pages else if pa ∈ pages then pages else pages ++ [pa]

theorem track_tree (pa : Nat) (s : TreeState) :
    (s.track pa).tree = { s.tree with tracked := trackedWith pa s.tree.tracked } ∧
      (s.track pa).mm.pageTags = s.mm.pageTags := by
  unfold TreeState.track trackedWith
  split_ifs <;> exact ⟨rfl, rfl⟩

/-- A routine that changes neither the tree nor a tag. -/
structure SameList (s s' : TreeState) : Prop where
  tree : s'.tree = s.tree
  tags : s'.mm.pageTags = s.mm.pageTags

instance : Std.Refl SameList := ⟨fun _ => ⟨rfl, rfl⟩⟩
instance : IsTrans TreeState SameList :=
  ⟨fun _ _ _ h h' => ⟨h'.tree.trans h.tree, h'.tags.trans h.tags⟩⟩

/-- The page has been taken for a table and entered in the list. -/
structure Tracks (pa : Nat) (s s' : TreeState) : Prop where
  tree : s'.tree = { s.tree with tracked := trackedWith pa s.tree.tracked }
  tags : s'.mm.pageTags = (s.mm.claim .pageTable pa).pageTags

section Steps

variable {s : TreeState} {table idx : Nat}

theorem write_sameList (table idx e : Nat) :
    Prog.Within SameList (PageTableTree.walker.write table idx e) := fun _ => ⟨rfl, rfl⟩

theorem alloc_tracks (wf : s.mm.WF) :
    Prog.Post (PageTableTree.walker.onMm allocPtPage) s
      (fun pa s' => s'.tree = s.tree ∧ s'.mm.pageTags = (s.mm.claim .pageTable pa).pageTags)
      (fun s' => SameList s s') := by
  refine Prog.Post.zoom (allocPage_post wf .pageTable) ?_ ?_
  · rintro pa m ⟨_, rfl⟩
    exact ⟨rfl, rfl⟩
  · rintro m ⟨n, _, _, rfl⟩
    exact ⟨rfl, rfl⟩

theorem newTable_tracks (wf : s.mm.WF) :
    Prog.Post (PageTableTree.walker.newTable table idx) s (fun pa s' => Tracks pa s s')
      (fun s' => SameList s s') := by
  rw [PageTableTree.walker_standard.newTable_eq]
  refine (alloc_tracks wf).bind ?_
  rintro pa s₁ ⟨tree₁, tags₁⟩
  obtain ⟨tree, tags⟩ := track_tree pa
    { s₁ with mm := s₁.mm.setMem <| writePte s₁.mm.mem table idx (tableEntry pa) }
  refine .of_ok ⟨pa, _, rfl, ?_, ?_⟩
  · rw [← tree₁]
    exact tree
  · rw [← tags₁]
    exact tags

theorem split_tracks (wf : s.mm.WF) (size type original : Nat) :
    Prog.Post (PageTableTree.walker.split size type table idx original) s
      (fun pa s' => Tracks pa s s') (fun s' => SameList s s') := by
  rw [PageTableTree.walker_standard.split_eq]
  refine (alloc_tracks wf).bind ?_
  rintro pa s₁ ⟨tree₁, tags₁⟩
  obtain ⟨tree, tags⟩ := track_tree pa s₁
  refine Prog.Post.modify_bind ?_
  -- the writes change neither
  obtain ⟨s₂, run₂, _⟩ := Walker.forEach_write_ok PageTableTree.walker_lawful
    (blockPart PageTableTree.walker.keptBits size type original) pa (List.range 512) (s₁.track pa)
  have parts : Prog.Within SameList (Prog.forEach (fun i => PageTableTree.walker.write pa i
      (blockPart PageTableTree.walker.keptBits size type original i)) (List.range 512)) :=
    .forEach fun i _ => write_sameList _ _ _
  have same := parts (s₁.track pa)
  rw [run₂] at same
  refine .of_ok ⟨pa, _, (Prog.bind_ok run₂).trans rfl, ?_, ?_⟩
  · rw [← tree₁, ← tree]
    exact same.tree
  · rw [← tags₁, ← tags]
    exact same.tags

end Steps

/-! ## The list through a mapping -/

/-- There is room in the list for the tables that are missing on the way of `va`, and if any are
missing, `va` is in the lower half. -/
structure Fits (s : TreeState) (va : Nat) : Prop where
  room : s.tree.tracked.length + (leaf s.mm.mem s.tree.l0Pa va).2.length ≤ maxTracked
  lower : (leaf s.mm.mem s.tree.l0Pa va).2 ≠ [] → vaL0Index va < 256

/-- The state during a mapping of `va`, begun with the memory `m₀`. -/
structure Walking (root va : Nat) (m₀ : Mem) (s : TreeState) : Prop where
  root_eq : s.tree.l0Pa = root
  growing : Growing PageTableTree.walker.keptBits root va m₀ s.mm
  tracked : Tracked s
  fits : Fits s va

section Walking

variable {root va pa idx : Nat} {path : List Nat} {m₀ : Mem} {s s' : TreeState}

/-- An allocation that fails leaves the list as it is. -/
theorem Walking.skipped (h : Walking root va m₀ s) (skipped : Walker.Skipped s.mm s'.mm)
    (same : SameList s s') : Walking root va m₀ s' := by
  have growing := h.growing.skipped skipped
  obtain ⟨n, ge, grid, mm_eq⟩ := skipped
  have mem_eq : s'.mm.mem = s.mm.mem := by rw [mm_eq]; rfl
  refine ⟨?_, growing, ⟨?_, ?_, ?_, ?_, ?_, ?_⟩, ⟨?_, ?_⟩⟩
  · rw [same.tree]
    exact h.root_eq
  · rw [same.tree]
    exact h.tracked.rooted
  · rw [same.tree]
    exact h.tracked.nodup
  · rw [same.tree]
    exact h.tracked.room
  · rw [same.tree, mem_eq]
    exact h.tracked.exact
  · rw [same.tree]
    exact h.tracked.ram
  · intro p listed
    rw [same.tree] at listed
    rw [Mm.tag, same.tags]
    exact h.tracked.inUse p listed
  · rw [same.tree, mem_eq]
    exact h.fits.room
  · rw [same.tree, mem_eq]
    exact h.fits.lower

/-- A table that is linked on the way is listed. -/
theorem Walking.link (h : Walking root va m₀ s) (on : path ++ [idx] <+: vaPath va)
    (short : path.length < 3) (cand : s.mm.Candidate pa)
    (growing : Growing PageTableTree.walker.keptBits root va m₀ s'.mm)
    (linked : LinkedAt root va path idx pa s.mm.mem s'.mm.mem) (tracks : Tracks pa s s') :
    Walking root va m₀ s' := by
  obtain ⟨rfl, old, tracked, fits⟩ := h
  have left := linked.left
  have room := fits.room
  have below : vaL0Index va < 256 := fits.lower (by
    rw [← List.length_pos_iff]
    omega)
  have fresh : pa ∉ s.tree.tracked := by
    intro listed
    obtain ⟨P, isPath, _, reach⟩ := (tracked.exact pa).mp listed
    exact cand.not_spent (old.held P pa isPath reach) rfl
  have list_eq : s'.tree.tracked = s.tree.tracked ++ [pa] := by
    rw [tracks.tree]
    simp only [trackedWith]
    rw [if_neg (by omega), if_neg fresh]
  have root_eq : s'.tree.l0Pa = s.tree.l0Pa := by rw [tracks.tree]
  have isPath : IsPath (path ++ [idx]) := isPath_of_sub on (by simpa using short)
  have lower : LowerPath (path ++ [idx]) := by
    obtain ⟨tail, eq⟩ := on
    have head : (path ++ [idx]).head? = some (vaL0Index va) := by
      have first := congrArg List.head? eq
      rw [List.head?_append_of_ne_nil _ (by simp)] at first
      exact first
    intro i mem
    rw [head] at mem
    cases mem
    exact below
  refine ⟨root_eq, growing, ⟨?_, ?_, ?_, fun p => ?_, ?_, fun p listed => ?_⟩, ⟨?_, fun _ => below⟩⟩
  · rw [tracks.tree]
    exact tracked.rooted
  · rw [list_eq]
    exact nodup_snoc tracked.nodup fresh
  · rw [list_eq, List.length_append, List.length_singleton]
    omega
  · rw [list_eq, List.mem_append, List.mem_singleton, tracked.exact, root_eq]
    constructor
    · rintro (⟨P, isP, low, reach⟩ | rfl)
      · exact ⟨P, isP, low, (linked.tables P p isP).mpr (Or.inl reach)⟩
      · exact ⟨_, isPath, lower, linked.here on short⟩
    · rintro ⟨P, isP, low, reach⟩
      rcases (linked.tables P p isP).mp reach with reach' | ⟨_, eq⟩
      · exact Or.inl ⟨P, isP, low, reach'⟩
      · exact Or.inr eq
  · intro p listed
    rw [list_eq, List.mem_append, List.mem_singleton] at listed
    rcases listed with listed | rfl
    · exact tracked.ram p listed
    · exact ⟨cand.ge_ram, cand.lt_ram⟩
  · rw [list_eq, List.mem_append, List.mem_singleton] at listed
    rw [Mm.tag, tracks.tags]
    simp only [Mm.claim, Mm.setTag]
    split_ifs with same
    · exact PageTag.noConfusion
    · rcases listed with listed | rfl
      · exact tracked.inUse p listed
      · exact absurd rfl same
  · rw [list_eq, root_eq, List.length_append, List.length_singleton]
    omega

theorem walking_steps : PageTableTree.walker.WalkSteps root va (Walking root va m₀) where
  new _ _ _ _ h on short here invalid :=
    ((Walker.newTable_grown PageTableTree.walker_lawful cleanMask_tree h.growing on short here
      invalid).and (newTable_tracks h.growing.wf)).mono
      (fun _ _ made => ⟨h.link on short made.1.1 made.1.2.1 made.1.2.2 made.2,
        made.1.2.2.here on short⟩) fun _ stop => h.skipped stop.1 stop.2
  split _ _ _ _ h on _ short here valid block :=
    ((Walker.split_grown PageTableTree.walker_lawful cleanMask_tree h.growing on short here valid
      block).and (split_tracks h.growing.wf _ _ _)).mono
      (fun _ _ made => ⟨h.link on short made.1.1 made.1.2.1 made.1.2.2 made.2,
        made.1.2.2.here on short⟩) fun _ stop => h.skipped stop.1 stop.2

theorem Growing.pagesTyped {kept : Nat} {mm : Mm} (clean : CleanMask kept)
    (h : Growing kept root va m₀ mm) (tree : WellFormed m₀ root) (typed : PagesTyped m₀ root) :
    PagesTyped mm.mem root := by
  intro x last valid
  rcases (h.finer x).access clean (tree.leaves x) (leaf_rest_suffix _ _ _) with
    same | ⟨_, invalid⟩ | ⟨_, _, _, part⟩
  · rw [same] at last valid ⊢
    exact typed x last valid
  · rw [invalid] at valid
    cases valid
  · rw [part.page, last]
    rfl

/-- The list is exact, and so is what it is compared with. -/
structure Exact (s : TreeState) : Prop where
  sound : s.Sound
  typed : PagesTyped s.mm.mem s.tree.l0Pa
  tracked : Tracked s

theorem Walking.exact (h : Walking root va m₀ s) (tree : WellFormed m₀ root)
    (typed : PagesTyped m₀ root) : Exact s := by
  obtain ⟨rfl, growing, tracked, _⟩ := h
  exact ⟨⟨growing.wf, growing.tree, growing.held⟩, growing.pagesTyped cleanMask_tree tree typed, tracked⟩

theorem isTable_pageEntry (pa : Nat) (flags : MapFlags) : isTable (pageEntry pa flags) = true := by
  have type : pteTypePage.testBit 1 = true := by decide
  simp only [isTable, pageEntry, Nat.testBit_or, type, Bool.or_true, Bool.true_or]

/-- The last write of a mapping. -/
theorem Exact.page (h : Exact s) {l3 : Nat} (flags : MapFlags)
    (at_l3 : tableAt s.mm.mem s.tree.l0Pa [vaL0Index va, vaL1Index va, vaL2Index va] = some l3) :
    Exact { s with mm := s.mm.setMem (writePte s.mm.mem l3 (vaL3Index va) (pageEntry pa flags)) } := by
  have paged : Paged s.tree.l0Pa va (pageEntry pa flags) _ _ := h.sound.tree.page at_l3
  have tracked := h.tracked
  refine ⟨⟨h.sound.wf.setMem _, paged.tree, paged.held h.sound.held⟩, fun x last valid => ?_,
    ⟨tracked.rooted, tracked.nodup, tracked.room, fun p => ?_, tracked.ram, tracked.inUse⟩⟩
  · rw [Mm.setMem_mem] at last valid ⊢
    by_cases page : vaPath x = vaPath va
    · rw [paged.here x page, isTable_mod, isTable_pageEntry]
    · rw [paged.others x page] at last valid ⊢
      exact h.typed x last valid
  · rw [tracked.exact]
    refine exists_congr fun P => and_congr_right fun isP => and_congr_right fun _ => ?_
    rw [Mm.setMem_mem, paged.tables P isP]

/-- A mapping for which the list has room keeps it exact, whether it returns or fails on the way. -/
theorem mapVa_exact (h : Exact s) (fits : Fits s va) (pa : Nat) (flags : MapFlags) :
    Prog.Post (PageTableTree.mapVa va pa flags) s (fun _ s' => Exact s') Exact := by
  have start : Walking s.tree.l0Pa va s.mm.mem s :=
    ⟨rfl, .start h.sound.wf h.sound.tree h.sound.held, h.tracked, fits⟩
  refine Prog.Post.get_bind ?_
  split_ifs
  · exact .throw h
  · exact .throw h
  · rw [Walker.mapPage_eq_leafTable _ PageTableTree.walker_standard]
    refine ((walking_steps.leafTable start).mono (fun _ _ out => out)
      fun _ stop => stop.exact h.sound.tree h.typed).bind ?_
    rintro l3 s₁ ⟨walking, at_l3⟩
    rw [← walking.root_eq] at at_l3
    exact .of_ok ⟨(), _, rfl, (walking.exact h.sound.tree h.typed).page flags at_l3⟩

end Walking

/-! ## Trees from a new root -/

section Built

variable {s : TreeState}

theorem PagesTyped.empty {m : Mem} {root : Nat} (zero : ∀ i < 512, readPte m root i = 0) :
    PagesTyped m root := by
  intro va last _
  have stop : (leaf m root va).2 = [vaL1Index va, vaL2Index va, vaL3Index va] := by
    rw [leaf, Radix.walk, zero _ (vaL0Index_lt va), ref_zero]
  rw [stop] at last
  cases last

/-- A new tree lists its root and the first table below it. -/
theorem allocateRoot_exact (wf : s.mm.WF) (new : s.tree.hasRoot = false) :
    Prog.Post PageTableTree.allocateRoot s (fun _ s' => Exact s') fun _ => True := by
  simp only [PageTableTree.allocateRoot, PageTableTree.cleanEntry_tableEntry]
  refine Prog.Post.get_bind ?_
  simp only [new, Bool.false_eq_true, if_false]
  refine Prog.Post.bind
    (Q := fun l0 s₁ => s.mm.Candidate l0 ∧ s₁ = { s with mm := s.mm.claim .pageTable l0 })
    (Prog.Post.zoom (allocPage_post wf .pageTable) (fun _ _ ok => ⟨ok.1, by rw [ok.2]⟩)
      fun _ _ => trivial) ?_
  rintro l0 s₁ ⟨cand0, rfl⟩
  have wf₁ : (s.mm.claim .pageTable l0).WF := wf.claim cand0
  have zero : ∀ i < 512, readPte (s.mm.claim .pageTable l0).mem l0 i = 0 := fun i hi => readPte_claim hi
  have tree : WellFormed (s.mm.claim .pageTable l0).mem l0 := .empty (cand0.aligned wf) zero
  have spent : (s.mm.claim .pageTable l0).Spent l0 := s.mm.spent_claim_self .pageTable l0
  have held : HeldTables (s.mm.claim .pageTable l0) l0 := fun P p isPath reach => by
    obtain ⟨_, rfl⟩ := tableAt_empty zero isPath reach
    exact spent
  refine Prog.Post.bind (Q := fun l1 s₂ => (s.mm.claim .pageTable l0).Candidate l1 ∧
      s₂ = { s with mm := (s.mm.claim .pageTable l0).claim .pageTable l1 })
    (Prog.Post.zoom (allocPage_post wf₁ .pageTable) (fun _ _ ok => ⟨ok.1, by rw [ok.2]⟩)
      fun _ _ => trivial) ?_
  rintro l1 s₂ ⟨cand1, rfl⟩
  have on : [] ++ [0] <+: vaPath 0 := ⟨[0, 0, 0], rfl⟩
  have ne : l0 ≠ l1 := cand1.not_spent spent
  have started : Growing PageTableTree.walker.keptBits l0 0 _ _ := .start wf₁ tree held
  obtain ⟨grown, linked⟩ := started.link
    cleanMask_tree cand1 rfl on (by decide) (by rw [zero 0 (by decide), ref_zero])
    (fun _ _ _ => Mem.SameOn.refl _ _ _) (fun _ j hj => by rw [readPte_claim hj, ref_zero])
    fun k hk rest _ => by
      rw [readPte_claim hk]
      exact .empty (by rw [zero 0 (by decide), isValid, Nat.zero_testBit])
  refine .of_ok ⟨(), _, rfl, ⟨grown.wf, grown.tree, grown.held⟩,
    grown.pagesTyped cleanMask_tree tree (.empty zero), rfl, ?_, ?_, fun p => ?_, ?_, ?_⟩
  · simpa using ne
  · exact (by decide : 2 ≤ maxTracked)
  · simp only [List.mem_cons, List.not_mem_nil, or_false]
    constructor
    · rintro (rfl | rfl)
      · exact lower_root
      · exact ⟨[0], ⟨by simp, by simp⟩, by simp [LowerPath],
          (linked.tables [0] p ⟨by simp, by simp⟩).mpr (Or.inr ⟨rfl, rfl⟩)⟩
    · rintro ⟨P, isPath, _, reach⟩
      rcases (linked.tables P p isPath).mp reach with old | ⟨_, eq⟩
      · exact Or.inl (tableAt_empty zero isPath old).2
      · exact Or.inr eq
  · intro p listed
    simp only [List.mem_cons, List.not_mem_nil, or_false] at listed
    rcases listed with rfl | rfl
    · exact ⟨cand0.ge_ram, cand0.lt_ram⟩
    · exact ⟨cand1.ge_ram, cand1.lt_ram⟩
  · intro p listed
    simp only [List.mem_cons, List.not_mem_nil, or_false] at listed
    simp only [Mm.tag, Mm.setMem, Mm.claim, Mm.setTag]
    rcases listed with rfl | rfl <;> simp

/-- A call of `map_va`. -/
structure VaMap where
  va : Nat
  pa : Nat
  flags : MapFlags

def vaMaps : Stepper TreeState Status VaMap where
  exec op := PageTableTree.mapVa op.va op.pa op.flags
  Enabled _ _ := True

/-- The list is the set of the tables below the lower half of the root, and so the tree passes its
validation and `free_tree` gives back each of these tables once. -/
structure TrackedExactly (s : TreeState) : Prop where
  nodup : s.tree.tracked.Nodup
  tables : ∀ p, p ∈ s.tree.tracked ↔ LowerTable s.mm.mem s.tree.l0Pa p
  valid : s.tree.validate s.mm.mem = true
  freed : ∃ s', PageTableTree.freeTree s = .ok () s' ∧
    s'.mm.freeLog = s.mm.freeLog ++ s.tree.tracked.reverse

theorem Exact.trackedExactly (h : Exact s) : TrackedExactly s where
  nodup := h.tracked.nodup
  tables := h.tracked.exact
  valid := h.tracked.validate h.sound.tree h.typed
  freed := h.tracked.freeTree h.sound.tree

theorem vaMaps_exact {s₀ : TreeState} (init : Exact s₀)
    (run : vaMaps.Run (fun s op => Fits s op.va) s₀ s) : Exact s := by
  refine run.invariant init ?_
  rintro op s s' h fits ⟨_, ran⟩
  rcases (mapVa_exact h fits op.pa op.flags).ends ran with ⟨_, h'⟩ | h'
  · exact h'
  · exact h'

theorem hasRoot_of_allocateRoot {s₀ s₁ : TreeState}
    (run : PageTableTree.allocateRoot s₀ = .ok () s₁) : s₀.tree.hasRoot = false := by
  cases has : s₀.tree.hasRoot with
  | false => rfl
  | true =>
    simp only [PageTableTree.allocateRoot, Prog.bind_apply, Prog.get_apply, has, if_true] at run
    cases run

/-- A tree made by `allocate_root` and mappings for which the list has room tracks exactly its tables. -/
theorem table_pages_tracked (s₀ s₁ s : TreeState) (wf : s₀.mm.WF)
    (root : PageTableTree.allocateRoot s₀ = .ok () s₁)
    (run : vaMaps.Run (fun s op => Fits s op.va) s₁ s) : TrackedExactly s := by
  have new := hasRoot_of_allocateRoot root
  have init : Exact s₁ := (allocateRoot_exact wf new).ok _ _ root
  exact (vaMaps_exact init run).trackedExactly

/-! ### Two runs -/

/-- A machine with 256 MB of free memory and no tree. -/
def TreeState.booted : TreeState where
  tree := .empty
  mm := Mm.boot 0x40200000 0x50000000

def TreeState.rooted : TreeState := (PageTableTree.allocateRoot booted).state

theorem TreeState.rooted_eq : PageTableTree.allocateRoot booted = .ok () rooted :=
  Outcome.eq_ok_of_value? (by decide +kernel)

/-- Pages in two regions, the second of which shares the first two levels with the first. -/
def VaMap.userPages : List VaMap := [⟨0x400000, 0x50000000, .userRx⟩, ⟨0x7F00000, 0x50001000, .userRw⟩]

theorem table_pages_tracked_userPages :
    TrackedExactly (vaMaps.after TreeState.rooted VaMap.userPages) :=
  table_pages_tracked TreeState.booted TreeState.rooted _ ⟨by decide, by decide⟩ TreeState.rooted_eq
    (Stepper.Run.start.follow ⟨⟨by decide +kernel, by decide +kernel⟩, trivial, by decide +kernel,
      ⟨by decide +kernel, by decide +kernel⟩, trivial, by decide +kernel, trivial⟩)

/-- A page of the upper half: its tables are listed, and the validation does not find them. -/
def VaMap.upper : VaMap := ⟨0xFFFF800000000000, 0x50000000, .userRx⟩

theorem table_pages_upper : ¬ ∀ s₀ s₁ s : TreeState, s₀.mm.WF →
    PageTableTree.allocateRoot s₀ = .ok () s₁ → vaMaps.Run (fun _ _ => True) s₁ s →
    TrackedExactly s := by
  intro claim
  have run : vaMaps.Run (fun _ _ => True) TreeState.rooted (vaMaps.after TreeState.rooted [.upper]) :=
    Stepper.Run.start.follow ⟨trivial, trivial, by decide +kernel, trivial⟩
  have exact := claim TreeState.booted TreeState.rooted _ ⟨by decide, by decide⟩ TreeState.rooted_eq run
  have refused : (vaMaps.after TreeState.rooted [.upper]).tree.validate
      (vaMaps.after TreeState.rooted [.upper]).mm.mem = false := by
    decide +kernel
  rw [exact.valid] at refused
  cases refused

end Built

end CapsuleOS
