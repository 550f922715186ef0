import CapsuleOS.Arch.KernelTables
import CapsuleOS.Arch.Trees
import CapsuleOS.Task.Launch

/-!
# The trees of the processes

The trees of the kernel and of the processes are different trees of one forest (`Forest`). The mapping
routines work on one of them and leave the roots of all where they are, so the forest stays one.
-/
namespace CapsuleOS

open Lib

/-! ## Frames in use -/

/-- Every frame in use in `m` has the same content in `m'`. -/
structure Mm.Beyond (m m' : Mm) : Prop where
  wf : m'.WF
  spent : ∀ q, m.Spent q → m'.Spent q
  same : ∀ q, pageSize ∣ q → m.Spent q → m.mem.SameOn m'.mem q pageSize

namespace Mm

variable {m m' m'' : Mm}

theorem Beyond.refl (wf : m.WF) : m.Beyond m := ⟨wf, fun _ hq => hq, fun _ _ _ => Mem.SameOn.refl _ _ _⟩

theorem Beyond.trans (h : m.Beyond m') (h' : m'.Beyond m'') : m.Beyond m'' where
  wf := h'.wf
  spent q hq := h'.spent q (h.spent q hq)
  same q al hq := (h.same q al hq).trans (h'.same q al (h.spent q hq))

theorem Beyond.claim (h : m.Beyond m') {pa : Nat} (cand : m'.Candidate pa) (tag : PageTag) :
    m.Beyond (m'.claim tag pa) :=
  h.trans ⟨h.wf.claim cand, fun _ hq => hq.claim tag cand,
    fun _ al hq => Vmo.claim_sameOn tag h.wf cand hq al⟩

theorem Beyond.skipTo (h : m.Beyond m') {n : Nat} (ge : m'.nextFreePage ≤ n)
    (grid : 4096 ∣ n - m'.nextFreePage) : m.Beyond (m'.skipTo n) :=
  h.trans ⟨h.wf.skipTo ge grid, fun _ hq => hq.skipTo ge, fun _ _ _ => Mem.SameOn.refl _ _ _⟩

theorem Beyond.alloc (h : m.Beyond m') (tag : PageTag) :
    Prog.Post (allocPage tag) m' (fun pa u => m'.Candidate pa ∧ u = m'.claim tag pa ∧ m.Beyond u)
      (fun u => m.Beyond u) := by
  refine (allocPage_post h.wf tag).mono ?_ ?_
  · rintro pa u ⟨cand, rfl⟩
    exact ⟨cand, rfl, h.claim cand tag⟩
  · rintro u ⟨n, ge, grid, rfl⟩
    exact h.skipTo ge grid

theorem Beyond.untouched {ty : Sites} (h : m.Beyond m') (shaped : Shaped ty m) : Untouched ty m m' where
  wf := h.wf
  spent := h.spent
  same p σ hp := h.same p (shaped.aligned p σ hp) (shaped.spent p σ hp)

end Mm

namespace Sys

/-! ## One tree -/

/-- What `clone_identity_block` takes over is a table of the parent. -/
def SharesIdentity (m : Mem) (parent : Nat) : Prop :=
  readPte m parent 0 ≠ 0 ∧ ref (PageTableTree.identityEntry m parent) ≠ none

instance (m : Mem) (parent : Nat) : Decidable (SharesIdentity m parent) :=
  inferInstanceAs (Decidable (_ ∧ _))

/-- At most the tree of process `pid` has changed, and that tree has the root `r` if it is new. -/
structure Touched (pid r : Nat) (ty : Sites) (s : Sys) (ty' : Sites) (s' : Sys) : Prop where
  confined : Confined r ty s.mm ty' s'.mm
  others : ∀ j ≠ pid, (s.treeOf j).SameRoot (s'.treeOf j)
  own : (s.treeOf pid).SameRoot (s'.treeOf pid) ∨ (s'.space pid).tree.hasRoot = false ∨
    ((s'.space pid).tree.l0Pa = r ∧ ty' r = some (rootSite r))

theorem sameRoot_of_space {s s' : Sys} {j : Nat} (h : s'.space j = s.space j) :
    (s.treeOf j).SameRoot (s'.treeOf j) := by
  simp [TreeState.SameRoot, treeOf, h]

theorem onTree_post {s : Sys} {pid : Nat} {α : Type} {m : TreeM α} {T : α → TreeState → Prop} {F : TreeState → Prop}
    {Q : α → Sys → Prop} {E : Sys → Prop} (h : Prog.Post m (s.treeOf pid) T F)
    (hQ : ∀ a t, T a t → Q a (Sys.putTree pid t s)) (hE : ∀ t, F t → E (Sys.putTree pid t s)) :
    Prog.Post (onTree pid m) s Q E := by
  unfold onTree
  refine Prog.Post.zoom ?_ hQ hE
  exact h

/-! ## The forest -/

/-- The trees of the kernel and of the processes are different trees of one forest. -/
structure Forest (kernelRoot : Nat) (ty : Sites) (s : Sys) : Prop where
  shaped : Shaped ty s.mm
  kernel : ty kernelRoot = some (rootSite kernelRoot)
  root : ∀ j, (s.space j).tree.hasRoot = true →
    ty (s.space j).tree.l0Pa = some (rootSite (s.space j).tree.l0Pa)
  apart : ∀ i j, (s.space i).tree.hasRoot = true → (s.space j).tree.hasRoot = true →
    (s.space i).tree.l0Pa = (s.space j).tree.l0Pa → i = j

variable {kernelRoot pid r : Nat} {ty ty' : Sites} {s s' : Sys}

/-- The root of another process is not the one that is worked on. -/
def Foreign (pid r : Nat) (s : Sys) : Prop :=
  ∀ j ≠ pid, (s.space j).tree.hasRoot = true → (s.space j).tree.l0Pa ≠ r

theorem Forest.foreign_own (f : Forest kernelRoot ty s) (rooted : (s.space pid).tree.hasRoot = true) :
    Foreign pid (s.space pid).tree.l0Pa s :=
  fun j ne rooted_j eq => ne (f.apart j pid rooted_j rooted eq)

theorem Forest.foreign_new (f : Forest kernelRoot ty s) (unused : PageTableTree.Unused ty r) :
    Foreign pid r s := by
  rintro j _ rooted rfl
  exact unused _ _ (f.root j rooted) rfl

theorem Forest.touched (f : Forest kernelRoot ty s) (h : Touched pid r ty s ty' s')
    (foreign : Foreign pid r s) : Forest kernelRoot ty' s' := by
  have old : ∀ j ≠ pid, (s'.space j).tree.hasRoot = true →
      (s.space j).tree.hasRoot = true ∧ (s'.space j).tree.l0Pa = (s.space j).tree.l0Pa :=
    fun j ne rooted => ⟨(h.others j ne).2 ▸ rooted, (h.others j ne).1⟩
  have own : (s'.space pid).tree.hasRoot = true →
      ((s.space pid).tree.hasRoot = true ∧ (s'.space pid).tree.l0Pa = (s.space pid).tree.l0Pa) ∨
        ((s'.space pid).tree.l0Pa = r ∧ ty' r = some (rootSite r)) := by
    intro rooted
    rcases h.own with same | unrooted | new
    · exact Or.inl ⟨same.2 ▸ rooted, same.1⟩
    · rw [unrooted] at rooted
      cases rooted
    · exact Or.inr new
  have clash : ∀ j ≠ pid, (s'.space j).tree.hasRoot = true → (s'.space pid).tree.hasRoot = true →
      (s'.space j).tree.l0Pa ≠ (s'.space pid).tree.l0Pa := by
    intro j ne rooted_j rooted eq
    obtain ⟨before, same⟩ := old j ne rooted_j
    rw [same] at eq
    rcases own rooted with ⟨before', same'⟩ | ⟨new, _⟩
    · exact ne (f.apart j pid before before' (eq.trans same'))
    · exact foreign j ne before (eq.trans new)
  refine ⟨h.confined.shaped, h.confined.le _ _ f.kernel, fun j rooted => ?_, fun i j ri rj eq => ?_⟩
  · by_cases ne : j = pid
    · subst ne
      rcases own rooted with ⟨before, same⟩ | ⟨new, typed⟩
      · rw [same]
        exact h.confined.le _ _ (f.root j before)
      · rw [new]
        exact typed
    · obtain ⟨before, same⟩ := old j ne rooted
      rw [same]
      exact h.confined.le _ _ (f.root j before)
  · by_cases ni : i = pid
    · by_cases nj : j = pid
      · exact ni.trans nj.symm
      · subst ni
        exact absurd eq.symm (clash j nj rj ri)
    · by_cases nj : j = pid
      · subst nj
        exact absurd eq (clash i ni ri rj)
      · obtain ⟨bi, same_i⟩ := old i ni ri
        obtain ⟨bj, same_j⟩ := old j nj rj
        exact f.apart i j bi bj (by rw [← same_i, ← same_j, eq])

/-! ## The operations -/

/-- No root has moved. -/
def SameRoots (s s' : Sys) : Prop := ∀ j, (s.treeOf j).SameRoot (s'.treeOf j)

instance : Std.Refl SameRoots := ⟨fun _ _ => ⟨rfl, rfl⟩⟩

instance : IsTrans Sys SameRoots :=
  ⟨fun _ _ _ h h' j => ⟨(h' j).1.trans (h j).1, (h' j).2.trans (h j).2⟩⟩

theorem putTree_sameRoots {t : TreeState} (same : (s.treeOf pid).SameRoot t) :
    SameRoots s (putTree pid t s) := by
  intro j
  by_cases eq : j = pid
  · subst eq
    simpa [treeOf, putTree, setSpace, TreeState.SameRoot] using same
  · simp [treeOf, putTree, setSpace, TreeState.SameRoot, Function.update_of_ne eq]

theorem registerForL0_sameRoots (l0Pa pa : Nat) (s : Sys) : SameRoots s (registerForL0 l0Pa pa s) := by
  unfold registerForL0
  split
  · exact putTree_sameRoots (TreeState.track_sameRoot pa _)
  · exact Std.Refl.refl s

theorem registerCurrent_sameRoots (pa : Nat) (s : Sys) : SameRoots s (registerCurrent pa s) := by
  unfold registerCurrent
  split
  · exact Std.Refl.refl s
  · split
    · exact putTree_sameRoots (TreeState.track_sameRoot pa _)
    · exact Std.Refl.refl s

theorem putTree_track_still (pid pa : Nat) (s : Sys) :
    s.mm.Still (putTree pid ((s.treeOf pid).track pa) s).mm :=
  TreeState.track_still pa (s.treeOf pid)

theorem walker_standard (l0Pa : Nat) : (walker l0Pa).Standard where
  clean _ := tableEntry_and (by decide)
  cleanSplit _ := rfl
  attrBits _ := rfl

theorem walker_lawful (l0Pa : Nat) : (walker l0Pa).Lawful where
  toStandard := walker_standard l0Pa
  view_put _ _ := rfl
  track_still pa s := by
    simp only [walker, registerForL0]
    split
    · exact putTree_track_still _ pa s
    · exact .refl _
  trackSplit_still pa s := by
    simp only [walker, registerCurrent]
    split
    · exact .refl _
    · split
      · exact putTree_track_still _ pa s
      · exact .refl _

theorem onMm_sameRoots {α : Type} (l0Pa : Nat) (m : MmM α) :
    Prog.Within SameRoots ((walker l0Pa).onMm m) := by
  intro s
  unfold Walker.onMm Prog.zoom
  cases m ((walker l0Pa).view s) <;> exact fun j => ⟨rfl, rfl⟩

theorem touched_of_sameRoots (c : Confined r ty s.mm ty' s'.mm) (same : SameRoots s s') :
    Touched pid r ty s ty' s' := ⟨c, fun j _ => same j, .inl (same pid)⟩

theorem Forest.mapPageUnderL0 (f : Forest kernelRoot ty s)
    (rooted : (s.space pid).tree.hasRoot = true) (va pa : Nat) (flags : MapFlags) :
    ∃ ty', Touched pid (s.space pid).tree.l0Pa ty s ty'
      (Sys.mapPageUnderL0 (s.space pid).tree.l0Pa va pa flags s).state := by
  unfold Sys.mapPageUnderL0
  split_ifs with misaligned
  · exact ⟨ty, touched_of_sameRoots (.refl f.shaped) (Std.Refl.refl s)⟩
  · have lawful := walker_lawful (s.space pid).tree.l0Pa
    have post := (Walker.mapPage_post lawful f.shaped (f.root pid rooted) va pa flags).mono
      (fun _ _ h => h.1) fun _ h => h
    have same := Walker.mapPage_within (onMm_sameRoots _ _) (fun _ _ _ => onMm_sameRoots _ _)
      (registerForL0_sameRoots (s.space pid).tree.l0Pa) registerCurrent_sameRoots
      (s.space pid).tree.l0Pa va pa flags s
    obtain ⟨ty', grown⟩ := post.state
    exact ⟨ty', touched_of_sameRoots grown.toConfined same⟩

theorem Forest.mapVa (f : Forest kernelRoot ty s) (pid va pa : Nat) (flags : MapFlags) :
    ∃ r ty', Foreign pid r s ∧
      Touched pid r ty s ty' (onTree pid (PageTableTree.mapVa va pa flags) s).state := by
  by_cases rooted : (s.space pid).tree.hasRoot = true
  · have top : PageTableTree.Rooted ty (s.treeOf pid) := ⟨f.shaped, rooted, f.root pid rooted⟩
    have moved : Prog.Post (onTree pid (PageTableTree.mapVa va pa flags)) s
        (fun _ s' => ∃ ty', Touched pid (s.space pid).tree.l0Pa ty s ty' s')
        (fun s' => ∃ ty', Touched pid (s.space pid).tree.l0Pa ty s ty' s') := by
      refine onTree_post (PageTableTree.mapVa_post top va pa flags) ?_ ?_
      · rintro _ t ⟨⟨ty', grown, same⟩, _⟩
        exact ⟨ty', touched_of_sameRoots grown.toConfined (putTree_sameRoots same)⟩
      · rintro t ⟨ty', grown, same⟩
        exact ⟨ty', touched_of_sameRoots grown.toConfined (putTree_sameRoots same)⟩
    obtain ⟨ty', touched⟩ := moved.state
    exact ⟨_, ty', f.foreign_own rooted, touched⟩
  · -- without a root the call fails
    obtain ⟨root, unused⟩ := PageTableTree.exists_unused f.shaped
    have stop : Prog.Post (onTree pid (PageTableTree.mapVa va pa flags)) s
        (fun _ s' => Touched pid root ty s ty s') (fun s' => Touched pid root ty s ty s') := by
      refine onTree_post (T := fun _ t => t = s.treeOf pid) (F := fun t => t = s.treeOf pid) ?_ ?_ ?_
      · unfold PageTableTree.mapVa
        refine Prog.Post.get_bind ?_
        have unrooted : (s.treeOf pid).tree.hasRoot = false := by simpa [treeOf] using rooted
        simp only [unrooted, Bool.not_false, if_true]
        split_ifs <;> exact .throw rfl
      · rintro _ _ rfl
        exact touched_of_sameRoots (.refl f.shaped) (putTree_sameRoots ⟨rfl, rfl⟩)
      · rintro _ rfl
        exact touched_of_sameRoots (.refl f.shaped) (putTree_sameRoots ⟨rfl, rfl⟩)
    exact ⟨root, ty, f.foreign_new unused, stop.state⟩

end Sys

/-! ## Runs -/

/-- The state in which the first program is launched: the MMU is on, and no process has tables. -/
structure MmuOn (kernelRoot : Nat) (s : Sys) : Prop where
  enabled : ∃ ramBase m, m.WF ∧ enableInner ramBase m = .ok kernelRoot s.mm
  unrooted : ∀ j, (s.space j).tree.hasRoot = false

theorem MmuOn.forest {kernelRoot : Nat} {s : Sys} (h : MmuOn kernelRoot s) :
    ∃ ty, Sys.Forest kernelRoot ty s := by
  obtain ⟨ramBase, m, wf, run⟩ := h.enabled
  obtain ⟨ty, shaped, kernel⟩ := (enableInner_shaped wf ramBase).ok _ _ run
  refine ⟨ty, shaped, kernel, fun j rooted => ?_, fun i j rooted => ?_⟩
  · simp [h.unrooted j] at rooted
  · simp [h.unrooted i] at rooted

end CapsuleOS
