import CapsuleOS.Arch.Tracking
import CapsuleOS.Lib.Postorder
import CapsuleOS.Memory.PhysRun

/-!
# Freeing a tree by its structure

`free_page_table_tree` does not know the list of table pages: it walks the lower half of a root, and
frees what it meets while it walks. The frames keep their content when they are freed, so the walk sees
the tree as it was (`freePageTableTree_eq`). In a forest every table of the lower half has one path, and
if all of them are in use, the walk frees each of them once and nothing else, and a second walk panics
at its first page (`freePageTableTree_frees`).
-/
namespace CapsuleOS

open Lib

/-- The tables of the lower half in the order in which they are freed. -/
def treePages (m : Mem) (root : Nat) : List Nat := Radix.postorder ref (readPte m) 512 3 256 root

theorem mem_treePages {m : Mem} {root p : Nat} : p ∈ treePages m root ↔ LowerTable m root p :=
  Radix.mem_postorder (by decide)

/-! ## The walk -/

theorem forTable_eq (table idx : Nat) (f : Nat → MmM Unit) :
    forTable table idx f = (do
      let s ← Prog.get
      (ref (readPte s.mem table idx)).elim (pure ()) f) := by
  funext s
  simp only [forTable, Prog.bind_apply, Prog.get_apply, ref]
  split_ifs <;> rfl

theorem freePage_mem {pa : Nat} {mm mm' : Mm} (run : freePage pa mm = .ok () mm') : mm'.mem = mm.mem := by
  have still := Mm.freePage_still pa mm
  rw [run] at still
  exact still.mem_eq

theorem freePageTableTree_eq (root : Nat) (mm : Mm) :
    freePageTableTree root mm = Prog.forEach freePage (treePages mm.mem root) mm := by
  have walk : freePageTableTree root =
      Radix.visitBelow ref (fun s : Mm => readPte s.mem) 512 freePage 3 256 root := by
    simp only [freePageTableTree, forTable_eq, Radix.visitBelow]
  rw [walk]
  exact Radix.visitBelow_eq (fun pa s t run => congrArg readPte (freePage_mem run)) mm

/-! ## Freeing pages in use -/

/-- The frame is in RAM and in use. -/
structure Mm.InUse (m : Mm) (p : Nat) : Prop where
  ge_ram : ramBase ≤ p
  lt_ram : p < ramBase + ramSize
  tag : m.tag p ≠ .free

/-- Pages have been freed one after the other, and nothing else has happened. -/
structure Mm.Freed (pages : List Nat) (m m' : Mm) : Prop where
  still : m.Still m'
  log : m'.freeLog = m.freeLog ++ pages
  free : ∀ p ∈ pages, m'.tag p = .free
  others : ∀ q, paToPfn q ∉ pages.map paToPfn → m'.tag q = m.tag q

theorem Mm.InUse.freePage {m : Mm} {p : Nat} (h : m.InUse p) : freePage p m = .ok () (m.release p) := by
  have pfn : paToPfn p < maxPages := by
    have lt := h.lt_ram
    have ge := h.ge_ram
    rw [paToPfn_of_ge ge (by unfold ramBase ramSize at lt; omega)]
    unfold maxPages ramBase ramSize at *
    omega
  rw [CapsuleOS.freePage, if_neg (Nat.not_le.mpr pfn), if_neg h.tag]

@[simp] theorem Mm.release_tag (m : Mm) (p q : Nat) :
    (m.release p).tag q = if paToPfn q = paToPfn p then .free else m.tag q := rfl

theorem freePages_freed {pages : List Nat} {mm mm' : Mm}
    (run : Prog.forEach freePage pages mm = .ok () mm') : mm.Freed pages mm' := by
  induction pages generalizing mm with
  | nil =>
    cases run
    exact ⟨.refl _, by simp, by simp, fun _ _ => rfl⟩
  | cons p pages ih =>
    obtain ⟨_, u, here, rest⟩ := Prog.bind_eq_ok run
    have first : mm.Still u := by
      have still := Mm.freePage_still p mm
      rwa [here] at still
    obtain rfl := freePage_ok here
    have freed := ih rest
    refine ⟨first.trans freed.still, ?_, fun q mem => ?_, fun q other => ?_⟩
    · rw [freed.log, Mm.release]
      simp
    · by_cases again : paToPfn q ∈ pages.map paToPfn
      · obtain ⟨r, memr, same⟩ := List.mem_map.mp again
        have free := freed.free r memr
        rwa [Mm.tag, same] at free
      · rcases List.mem_cons.mp mem with rfl | mem
        · rw [freed.others q again, Mm.release_tag, if_pos rfl]
        · exact absurd (List.mem_map_of_mem mem) again
    · rw [List.map_cons, List.mem_cons, not_or] at other
      rw [freed.others q other.2, Mm.release_tag, if_neg other.1]

/-- Distinct pages in use can be freed. -/
theorem freePages_returns {pages : List Nat} {mm : Mm} (nodup : pages.Nodup)
    (al : ∀ p ∈ pages, pageSize ∣ p) (inUse : ∀ p ∈ pages, mm.InUse p) :
    ∃ mm', Prog.forEach freePage pages mm = .ok () mm' := by
  induction pages generalizing mm with
  | nil => exact ⟨mm, rfl⟩
  | cons p pages ih =>
    obtain ⟨fresh, nodup'⟩ := List.nodup_cons.mp nodup
    have here := inUse p (by simp)
    obtain ⟨mm', run⟩ := @ih (mm.release p) nodup' (fun q mem => al q (by simp [mem]))
      fun q mem => by
        obtain ⟨ge, lt, tag⟩ := inUse q (by simp [mem])
        have apart : paToPfn q ≠ paToPfn p := paToPfn_ne (al q (by simp [mem])) (al p (by simp))
          ⟨ge, lt⟩ ⟨here.ge_ram, here.lt_ram⟩ (by rintro rfl; exact fresh mem)
        exact ⟨ge, lt, by rwa [Mm.release_tag, if_neg apart]⟩
    exact ⟨mm', (Prog.bind_ok here.freePage).trans run⟩

/-! ## Trees of a forest -/

section Forest

variable {ty : Sites} {mm : Mm} {r : Nat}

/-- A table is at the site that its path names. -/
theorem Shaped.site_of_path (h : Shaped ty mm) (top : ty r = some (rootSite r)) {P : List Nat} {p : Nat}
    (isPath : IsPath P) (reach : tableAt mm.mem r P = some p) : ty p = some (siteAt r P) := by
  induction P using List.reverseRecOn generalizing p with
  | nil =>
    cases reach
    exact top
  | append_singleton P i ih =>
    obtain ⟨isPath', short, hi⟩ := isPath.init
    rw [tableAt, Radix.follow_snoc] at reach
    obtain ⟨q, before, link⟩ := Option.bind_eq_some_iff.mp reach
    rw [siteAt_append]
    exact h.placed q _ (ih isPath' before) ((siteAt_inner r P).mpr short) i hi p link

/-- The tables of the lower half belong to the tree. -/
theorem siteAt_lower {P : List Nat} (lower : LowerPath P) : siteAt r P = ⟨some r, P⟩ := by
  cases P with
  | nil => rfl
  | cons i js =>
    obtain ⟨owner, path⟩ := owner_foldl (r := r) (lower i rfl) js
    rw [siteAt]
    generalize (i :: js).foldl Site.child (rootSite r) = σ at owner path
    obtain ⟨o, p⟩ := σ
    cases owner
    cases path
    rfl

theorem Shaped.lower_site (h : Shaped ty mm) (top : ty r = some (rootSite r)) {P : List Nat} {p : Nat}
    (isPath : IsPath P) (lower : LowerPath P) (reach : tableAt mm.mem r P = some p) :
    ty p = some ⟨some r, P⟩ := by
  rw [h.site_of_path top isPath reach, siteAt_lower lower]

theorem Shaped.onceFrom (h : Shaped ty mm) (top : ty r = some (rootSite r)) :
    Radix.OnceFrom ref (readPte mm.mem) 512 3 256 r := by
  intro P P' p isPath lower isPath' lower' reach reach'
  have site := h.lower_site top isPath lower reach
  rw [h.lower_site top isPath' lower' reach'] at site
  cases site
  rfl

/-- What the walk does to a tree whose tables are all in use. -/
theorem freePageTableTree_frees (h : Shaped ty mm) (top : ty r = some (rootSite r))
    (inUse : ∀ p, LowerTable mm.mem r p → mm.InUse p) :
    ∃ mm', freePageTableTree r mm = .ok () mm' ∧ (treePages mm.mem r).Nodup ∧
      mm.Freed (treePages mm.mem r) mm' ∧ ∃ mm'', freePageTableTree r mm' = .fault mm'' := by
  have nodup : (treePages mm.mem r).Nodup := Radix.nodup_postorder (by decide) (h.onceFrom top)
  have al : ∀ p ∈ treePages mm.mem r, pageSize ∣ p := fun p mem => by
    obtain ⟨P, isPath, low, reach⟩ := mem_treePages.mp mem
    exact h.aligned p _ (h.lower_site top isPath low reach)
  obtain ⟨mm', run⟩ := freePages_returns nodup al fun p mem => inUse p (mem_treePages.mp mem)
  have freed := freePages_freed run
  refine ⟨mm', by rw [freePageTableTree_eq, run], nodup, freed, ?_⟩
  rw [freePageTableTree_eq, freed.still.mem_eq]
  cases list : treePages mm.mem r with
  | nil =>
    have mem : r ∈ treePages mm.mem r := mem_treePages.mpr lower_root
    rw [list] at mem
    cases mem
  | cons p pages =>
    -- the first page is free by now
    have first : ∃ mm'', freePage p mm' = .fault mm'' := by
      rw [freePage, freed.free p (by simp [list])]
      simp only [if_true, ite_self]
      exact ⟨_, rfl⟩
    obtain ⟨mm'', stop⟩ := first
    exact ⟨mm'', Prog.bind_fault stop⟩

end Forest

/-! ## Frames behind the cursor -/

/-- No frame has been freed, and the cursor has left only frames behind that are in use. -/
structure Mm.Swept (m m' : Mm) : Prop where
  wf : m'.WF
  end_eq : m'.endFreePage = m.endFreePage
  next_le : m.nextFreePage ≤ m'.nextFreePage
  kept : ∀ p, m.tag p ≠ .free → m'.tag p ≠ .free
  passed : ∀ p, pageSize ∣ p → m.nextFreePage ≤ p → p < m'.nextFreePage → m'.InUse p
  same : ∀ p, pageSize ∣ p → ramBase ≤ p ∧ p < ramBase + ramSize → m.Spent p → m'.tag p = m.tag p

/-- The routine sweeps on from any well-formed state. -/
def Mm.Sweeps (m m' : Mm) : Prop := m.WF → m.Swept m'

namespace Mm

variable {m m' m'' : Mm}

theorem Swept.spent (h : m.Swept m') {p : Nat} (spent : m.Spent p) : m'.Spent p := by
  have le := h.next_le
  unfold Spent at *
  rw [h.end_eq]
  omega

theorem Swept.refl (wf : m.WF) : m.Swept m :=
  ⟨wf, rfl, le_rfl, fun _ h => h, fun _ _ _ _ => by omega, fun _ _ _ _ => rfl⟩

theorem Swept.trans (h : m.Swept m') (h' : m'.Swept m'') : m.Swept m'' where
  wf := h'.wf
  end_eq := h'.end_eq.trans h.end_eq
  next_le := h.next_le.trans h'.next_le
  kept p used := h'.kept p (h.kept p used)
  passed p al ge lt := by
    by_cases early : p < m'.nextFreePage
    · obtain ⟨lo, hi, used⟩ := h.passed p al ge early
      exact ⟨lo, hi, h'.kept p used⟩
    · exact h'.passed p al (by omega) lt
  same p al ram spent := (h'.same p al ram (h.spent spent)).trans (h.same p al ram spent)

instance : Std.Refl Sweeps := ⟨fun _ wf => .refl wf⟩

instance : IsTrans Mm Sweeps := ⟨fun _ _ _ h h' wf => (h wf).trans (h' (h wf).wf)⟩

/-- A change that the allocator does not see. -/
theorem Sweeps.of_eq (next : m'.nextFreePage = m.nextFreePage) (stop : m'.endFreePage = m.endFreePage)
    (tags : m'.pageTags = m.pageTags) : m.Sweeps m' := by
  intro wf
  have tag : ∀ p, m'.tag p = m.tag p := fun p => by rw [Mm.tag, Mm.tag, tags]
  refine ⟨⟨stop ▸ wf.end_lt, next ▸ wf.aligned⟩, stop, next.ge, fun p used => ?_, ?_, fun p _ _ _ => tag p⟩
  · rwa [tag]
  · intro p _ ge lt
    omega

theorem sweeps_setMem (m : Mm) (mem : Mem) : m.Sweeps (m.setMem mem) := .of_eq rfl rfl rfl

theorem Candidate.sweeps {pa : Nat} (cand : m.Candidate pa) (tag : PageTag) (used : tag ≠ .free)
    (start : m.nextFreePage = pa) : m.Sweeps (m.claim tag pa) := by
  intro wf
  have al := cand.aligned wf
  have tags : ∀ p, (m.claim tag pa).tag p = if paToPfn p = paToPfn pa then tag else m.tag p :=
    fun _ => rfl
  have next : (m.claim tag pa).nextFreePage = pa + 4096 := rfl
  refine ⟨wf.claim cand, rfl, by rw [next, start]; omega, fun p h => ?_, fun p alp ge lt => ?_, ?_⟩
  · rw [tags]
    split_ifs
    · exact used
    · exact h
  · obtain rfl : p = pa := by
      rw [next] at lt
      unfold pageSize at *
      omega
    exact ⟨cand.ge_ram, cand.lt_ram, by rw [tags, if_pos rfl]; exact used⟩
  · intro p alp ram spent
    rw [tags, if_neg (paToPfn_ne alp al ram ⟨cand.ge_ram, cand.lt_ram⟩ (cand.not_spent spent))]

/-- The allocation loop leaves behind what it takes and what it finds in use. -/
theorem allocLoop_sweeps {tag : PageTag} (used : tag ≠ .free) (fuel : Nat) :
    Prog.Within Sweeps (allocLoop tag fuel) := by
  induction fuel with
  | zero => exact .fault
  | succ fuel ih =>
    intro m
    unfold allocLoop
    simp only
    split_ifs with range pfn skip live
    · exact Std.Refl.refl m
    · exact Std.Refl.refl m
    · have step : m.Sweeps { m with nextFreePage := m.nextFreePage + 4096 } := by
        intro wf
        have al := wf.aligned
        refine ⟨⟨wf.end_lt, ?_⟩, rfl, ?_, fun _ h => h, fun p alp ge lt => ?_, fun _ _ _ _ => rfl⟩
        · simp only
          omega
        · simp only
          omega
        · obtain rfl : p = m.nextFreePage := by
            simp only at lt
            unfold pageSize at alp
            omega
          have stop := wf.end_lt
          obtain ⟨lo, hi⟩ := ram_of_paToPfn (by omega) (by omega : m.nextFreePage < 2 ^ 64)
          exact ⟨lo, hi, skip⟩
      exact IsTrans.trans _ _ _ step (ih _)
    · exact Std.Refl.refl m
    · intro wf
      have stop := wf.end_lt
      obtain ⟨lo, hi⟩ := ram_of_paToPfn (by omega) (by omega : m.nextFreePage < 2 ^ 64)
      exact Candidate.sweeps ⟨le_rfl, by simp, by omega, lo, hi, by simpa using skip, by simpa using live⟩
        tag used rfl wf

theorem allocPage_sweeps {tag : PageTag} (used : tag ≠ .free) : Prog.Within Sweeps (allocPage tag) :=
  fun m => allocLoop_sweeps used _ m

end Mm

end CapsuleOS
