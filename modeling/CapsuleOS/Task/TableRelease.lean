import CapsuleOS.Arch.Teardown
import CapsuleOS.Task.TwoWalks

/-!
# Releasing the tables of a process

Trees are built and extended, frames are taken and given back for other purposes, and whole trees are
released with `PROC_MGMT_RELEASE_PT`, in any order. The tables of a tree whose root is in use are all in
use, so that releasing it returns: it frees each table of its lower half once, and no table of another
tree. A second release of it panics.
-/
namespace CapsuleOS

open Lib

/-! ## The machine -/

/-- The page is a table of some tree. -/
def Sys.Reached (kernelRoot : Nat) (s : Sys) (p : Nat) : Prop :=
  ∃ r P, s.IsRoot kernelRoot r ∧ IsPath P ∧ tableAt s.mm.mem r P = some p

inductive TableOp where
  | allocateRoot (pid : Nat)
  | cloneHighHalf (pid parent : Nat)
  | cloneIdentityBlock (pid parent : Nat)
  | mapVa (pid va pa : Nat) (flags : MapFlags)
  | mapPageUnderL0 (pid va pa : Nat) (flags : MapFlags)
  | alloc (tag : PageTag)
  | free (pa : Nat)
  | releasePt (pid : Nat)

namespace TableOp

def exec : TableOp → SysM Unit
  | .allocateRoot pid => Sys.onTree pid PageTableTree.allocateRoot
  | .cloneHighHalf pid parent => Sys.onTree pid (Prog.modify (PageTableTree.cloneHighHalf parent))
  | .cloneIdentityBlock pid parent =>
    Sys.onTree pid (Prog.modify (PageTableTree.cloneIdentityBlock parent))
  | .mapVa pid va pa flags => Sys.onTree pid (PageTableTree.mapVa va pa flags)
  | .mapPageUnderL0 pid va pa flags => fun s =>
    Sys.mapPageUnderL0 (s.space pid).tree.l0Pa va pa flags s
  | .alloc tag => Sys.onMm (do let _ ← allocPage tag)
  | .free pa => Sys.onMm (freePage pa)
  | .releasePt pid => fun s => Sys.procMgmtReleasePt (s.space pid).tree.l0Pa s

/-- The addresses of tables are those of roots; a page that is taken gets the tag of its use, and a page
that is given back is in the frame of no table. -/
def Enabled (kernelRoot : Nat) (s : Sys) : TableOp → Prop
  | .cloneHighHalf _ parent => s.IsRoot kernelRoot parent
  | .cloneIdentityBlock _ parent => s.IsRoot kernelRoot parent
  | .mapPageUnderL0 pid _ _ _ => (s.space pid).tree.hasRoot = true
  | .alloc tag => tag ≠ .free
  | .free pa => ∀ p, s.Reached kernelRoot p → paToPfn p ≠ paToPfn pa
  | .releasePt pid => (s.space pid).tree.hasRoot = true
  | _ => True

/-- No tree takes over a table with the identity entry. -/
def PrivateIdentity (s : Sys) : TableOp → Prop
  | .cloneIdentityBlock _ parent => ¬ Sys.SharesIdentity s.mm.mem parent
  | _ => True

end TableOp

def tableKeeper (kernelRoot : Nat) : Stepper Sys Status TableOp where
  exec := TableOp.exec
  Enabled := TableOp.Enabled kernelRoot

namespace Sys

variable {kernelRoot pid r : Nat} {ty ty' : Sites} {s s' : Sys}

/-! ## Tables in use -/

/-- The tables of processes are in RAM, and in use if their root is. -/
structure Live (kernelRoot : Nat) (ty : Sites) (s : Sys) : Prop where
  ram : ∀ p σ r, ty p = some σ → σ.owner = some r → r ≠ kernelRoot →
    ramBase ≤ p ∧ p < ramBase + ramSize
  used : ∀ p σ r, ty p = some σ → σ.owner = some r → r ≠ kernelRoot → s.mm.tag r ≠ .free →
    s.mm.tag p ≠ .free
  own : ∀ j, (s.space j).tree.hasRoot = true → (s.space j).tree.l0Pa ≠ kernelRoot

theorem Forest.isRoot_site (f : Forest kernelRoot ty s) (root : s.IsRoot kernelRoot r) :
    ty r = some (rootSite r) := by
  rcases root with rfl | ⟨j, rooted, rfl⟩
  · exact f.kernel
  · exact f.root j rooted

open Classical in
/-- Only the tables that are reached need a site. -/
theorem Forest.trim (f : Forest kernelRoot ty s) : ∃ ty', Forest kernelRoot ty' s ∧
    ∀ p σ, ty' p = some σ → ty p = some σ ∧ s.Reached kernelRoot p := by
  let trimmed : Sites := fun p => if s.Reached kernelRoot p then ty p else none
  have look : ∀ p σ, trimmed p = some σ → s.Reached kernelRoot p ∧ ty p = some σ := fun p σ hp =>
    Option.ite_none_right_eq_some.mp hp
  have root : ∀ r, s.IsRoot kernelRoot r → trimmed r = some (rootSite r) := fun r isRoot => by
    have reached : s.Reached kernelRoot r := ⟨r, [], isRoot, ⟨by simp, by simp⟩, rfl⟩
    exact (if_pos reached).trans (f.isRoot_site isRoot)
  refine ⟨trimmed, ⟨⟨f.shaped.wf, fun p σ hp => f.shaped.aligned p σ (look p σ hp).2,
    fun p σ hp => f.shaped.spent p σ (look p σ hp).2, ?_, ?_,
    fun p σ hp => f.shaped.root p σ (look p σ hp).2⟩, root _ (Or.inl rfl),
    fun j rooted => root _ (Or.inr ⟨j, rooted, rfl⟩), f.apart⟩, fun p σ hp => (look p σ hp).symm⟩
  · intro p σ r' hp owner
    obtain ⟨⟨r, P, isRoot, isPath, reach⟩, typed⟩ := look p σ hp
    -- the owner is the root that the page is reached from
    have site := f.shaped.site_of_path (f.isRoot_site isRoot) isPath reach
    rw [typed, Option.some.injEq] at site
    subst site
    rcases siteAt_open r P with mine | shared
    · rw [mine, Option.some.injEq] at owner
      exact owner ▸ root r isRoot
    · rw [shared] at owner
      cases owner
  · intro p σ hp inner i hi q link
    obtain ⟨⟨r, P, isRoot, isPath, reach⟩, typed⟩ := look p σ hp
    have site := f.shaped.site_of_path (f.isRoot_site isRoot) isPath reach
    rw [typed, Option.some.injEq] at site
    have short : P.length < 3 := (siteAt_inner r P).mp (site ▸ inner)
    have further : s.Reached kernelRoot q := by
      refine ⟨r, P ++ [i], isRoot, ⟨by simpa using by omega, ?_⟩, ?_⟩
      · intro j mem
        rw [List.mem_append, List.mem_singleton] at mem
        rcases mem with mem | rfl
        · exact isPath.2 j mem
        · exact hi
      · rw [tableAt, Radix.follow_snoc]
        exact Option.bind_eq_some_iff.mpr ⟨p, reach, link⟩
    exact (if_pos further).trans (f.shaped.placed p σ typed inner i hi q link)

/-- When no process has tables there is nothing to say. -/
theorem Forest.live (f : Forest kernelRoot ty s) (unrooted : ∀ j, (s.space j).tree.hasRoot = false) :
    ∃ ty', Forest kernelRoot ty' s ∧ Live kernelRoot ty' s := by
  obtain ⟨ty', f', reached⟩ := f.trim
  have kernel : ∀ p σ r, ty' p = some σ → σ.owner = some r → r = kernelRoot := by
    intro p σ r hp owner
    obtain ⟨_, r', P, isRoot, isPath, reach⟩ := reached p σ hp
    have site := f'.shaped.site_of_path (f'.isRoot_site isRoot) isPath reach
    rw [hp, Option.some.injEq] at site
    subst site
    rcases isRoot with rfl | ⟨j, rooted, _⟩
    · rcases siteAt_open r' P with mine | shared
      · rw [mine] at owner
        exact (Option.some.inj owner).symm
      · rw [shared] at owner
        cases owner
    · rw [unrooted j] at rooted
      cases rooted
  refine ⟨ty', f', fun p σ r hp owner ne => absurd (kernel p σ r hp owner) ne,
    fun p σ r hp owner ne => absurd (kernel p σ r hp owner) ne, fun j rooted => ?_⟩
  rw [unrooted j] at rooted
  cases rooted

/-- A step that sweeps on keeps the tables in use, the new ones included. -/
theorem Live.swept (l : Live kernelRoot ty s) (shaped : Shaped ty s.mm)
    (c : Confined r ty s.mm ty' s'.mm) (swept : s.mm.Swept s'.mm)
    (own : ∀ j, (s'.space j).tree.hasRoot = true → (s'.space j).tree.l0Pa ≠ kernelRoot) :
    Live kernelRoot ty' s' := by
  have fresh : ∀ p σ, ty' p = some σ → ty p ≠ some σ → s'.mm.InUse p := by
    intro p σ hp new
    rcases c.fresh p σ hp with old | ⟨unspent, _⟩
    · exact absurd old new
    · have al := c.shaped.aligned p σ hp
      have spent := c.shaped.spent p σ hp
      have base := shaped.wf.aligned
      have stop := swept.end_eq
      unfold Mm.Spent at unspent spent
      unfold pageSize at *
      exact swept.passed p (by unfold pageSize; omega) (by omega) (by omega)
  refine ⟨fun p σ r' hp owner ne => ?_, fun p σ r' hp owner ne used => ?_, own⟩
  · by_cases old : ty p = some σ
    · exact l.ram p σ r' old owner ne
    · have inUse := fresh p σ hp old
      exact ⟨inUse.ge_ram, inUse.lt_ram⟩
  · by_cases old : ty p = some σ
    · have root := shaped.owned p σ r' old owner
      have same := swept.same r' (shaped.aligned r' _ root) (l.ram r' _ r' root rfl ne)
        (shaped.spent r' _ root)
      exact swept.kept p (l.used p σ r' old owner ne (same ▸ used))
    · exact (fresh p σ hp old).tag

/-- Frames are freed, and none of them is a table, or all of them belong to one tree. -/
theorem Live.freed (l : Live kernelRoot ty s) (shaped : Shaped ty s.mm) {pages : List Nat} {mm : Mm}
    (freed : s.mm.Freed pages mm)
    (apart : ∀ p σ r, ty p = some σ → σ.owner = some r → r ≠ kernelRoot → mm.tag r ≠ .free →
      paToPfn p ∉ pages.map paToPfn) : Live kernelRoot ty { s with mm } := by
  refine ⟨l.ram, fun p σ r hp owner ne used => ?_, l.own⟩
  have root := shaped.owned p σ r hp owner
  have usedRoot : mm.tag r ≠ .free := used
  have before : s.mm.tag r ≠ .free := by
    rw [← freed.others r (apart r _ r root rfl ne usedRoot)]
    exact usedRoot
  have same := freed.others p (apart p σ r hp owner ne usedRoot)
  show mm.tag p ≠ .free
  rw [same]
  exact l.used p σ r hp owner ne before

/-! ## Steps that take frames -/

/-- The part of the state that `view` shows sweeps on. -/
def SweepsIn {σ : Type} (view : σ → Mm) (s t : σ) : Prop := (view s).Sweeps (view t)

instance {σ : Type} (view : σ → Mm) : Std.Refl (SweepsIn view) := ⟨fun s => Std.Refl.refl (view s)⟩

instance {σ : Type} (view : σ → Mm) : IsTrans σ (SweepsIn view) :=
  ⟨fun s t u h h' => IsTrans.trans (view s) (view t) (view u) h h'⟩

theorem allocPtPage_sweeps : Prog.Within Mm.Sweeps allocPtPage := Mm.allocPage_sweeps (by decide)

theorem track_sweeps (pa : Nat) (t : TreeState) : SweepsIn TreeState.mm t (t.track pa) := by
  unfold TreeState.track
  split_ifs <;> exact .of_eq rfl rfl rfl

theorem mapVa_sweeps (pid va pa : Nat) (flags : MapFlags) :
    Prog.Within (SweepsIn Sys.mm) (onTree pid (PageTableTree.mapVa va pa flags)) := by
  have tree : Prog.Within (SweepsIn TreeState.mm) (PageTableTree.mapVa va pa flags) := by
    refine Prog.Within.get.bind fun t => ?_
    split_ifs
    · exact .throw _
    · exact .throw _
    · exact Walker.mapPage_within (allocPtPage_sweeps.zoom fun _ _ h => h)
        (fun _ _ _ => fun _ => .of_eq rfl rfl rfl) track_sweeps track_sweeps _ _ _ _
  exact tree.zoom fun _ _ h => h

theorem mapPageUnderL0_sweeps (l0Pa va pa : Nat) (flags : MapFlags) :
    Prog.Within (SweepsIn Sys.mm) (Sys.mapPageUnderL0 l0Pa va pa flags) := by
  have track : ∀ (pa : Nat) (s : Sys) (pid : Nat),
      SweepsIn Sys.mm s (putTree pid ((s.treeOf pid).track pa) s) := fun pa s pid =>
    track_sweeps pa (s.treeOf pid)
  unfold Sys.mapPageUnderL0
  split_ifs
  · exact .throw _
  · refine Walker.mapPage_within (allocPtPage_sweeps.zoom fun _ _ h => h)
      (fun _ _ _ => fun _ => .of_eq rfl rfl rfl) (fun pa s => ?_) (fun pa s => ?_) _ _ _ _
    · simp only [walker, registerForL0]
      split
      · exact track pa s _
      · exact Std.Refl.refl s
    · simp only [walker, registerCurrent]
      split
      · exact Std.Refl.refl s
      · split
        · exact track pa s _
        · exact Std.Refl.refl s

theorem mapVa_sameRoots (pid va pa : Nat) (flags : MapFlags) :
    Prog.Within SameRoots (onTree pid (PageTableTree.mapVa va pa flags)) := by
  have tree : Prog.Within TreeState.SameRoot (PageTableTree.mapVa va pa flags) := by
    refine Prog.Within.get.bind fun t => ?_
    split_ifs
    · exact .throw _
    · exact .throw _
    · exact PageTableTree.mapPage_sameRoot _ _ _ _
  exact tree.zoom fun _ _ h => putTree_sameRoots h

theorem mapPageUnderL0_sameRoots (l0Pa va pa : Nat) (flags : MapFlags) :
    Prog.Within SameRoots (Sys.mapPageUnderL0 l0Pa va pa flags) := by
  unfold Sys.mapPageUnderL0
  split_ifs
  · exact .throw _
  · exact Walker.mapPage_within (onMm_sameRoots _ _) (fun _ _ _ => onMm_sameRoots _ _)
      (registerForL0_sameRoots l0Pa) registerCurrent_sameRoots _ _ _ _

/-! ## The invariant -/

/-- The trees are apart and their tables are in use. -/
def Kept (kernelRoot : Nat) (s : Sys) : Prop :=
  ∃ ty, Forest kernelRoot ty s ∧ Live kernelRoot ty s

theorem Live.sameRoots (l : Live kernelRoot ty s) (same : SameRoots s s') :
    ∀ j, (s'.space j).tree.hasRoot = true → (s'.space j).tree.l0Pa ≠ kernelRoot := by
  intro j rooted
  have root : (s'.space j).tree.l0Pa = (s.space j).tree.l0Pa := (same j).1
  have has : (s'.space j).tree.hasRoot = (s.space j).tree.hasRoot := (same j).2
  rw [root]
  exact l.own j (has ▸ rooted)

/-- A step in one tree that frees nothing. -/
theorem Forest.kept (f : Forest kernelRoot ty s) (l : Live kernelRoot ty s) (pid : Nat)
    (touched : Touched pid r ty s ty' s') (foreign : Foreign pid r s) (sweeps : s.mm.Sweeps s'.mm)
    (own : ∀ j, (s'.space j).tree.hasRoot = true → (s'.space j).tree.l0Pa ≠ kernelRoot) :
    s'.Kept kernelRoot :=
  ⟨ty', f.touched touched foreign, l.swept f.shaped touched.confined (sweeps f.shaped.wf) own⟩

theorem Forest.allocateRoot_kept (f : Forest kernelRoot ty s) (l : Live kernelRoot ty s) (pid : Nat) :
    Prog.Post (onTree pid PageTableTree.allocateRoot) s (fun _ s' => s'.Kept kernelRoot)
      (fun s' => s'.Kept kernelRoot) := by
  obtain ⟨root, unused⟩ := PageTableTree.exists_unused f.shaped
  have idle : ∀ t : TreeState, t = s.treeOf pid → (Sys.putTree pid t s).Kept kernelRoot := by
    rintro _ rfl
    have same : SameRoots s (Sys.putTree pid (s.treeOf pid) s) := putTree_sameRoots ⟨rfl, rfl⟩
    exact f.kept l pid (touched_of_sameRoots (.refl f.shaped) same) (f.foreign_new unused)
      (.of_eq rfl rfl rfl) (l.sameRoots same)
  cases new : (s.space pid).tree.hasRoot with
  | true =>
    refine onTree_post (T := fun _ t => t = s.treeOf pid) (F := fun t => t = s.treeOf pid) ?_
      (fun _ t h => idle t h) idle
    unfold PageTableTree.allocateRoot
    refine Prog.Post.get_bind ?_
    have has : (s.treeOf pid).tree.hasRoot = true := new
    simp only [has, if_true]
    exact .throw rfl
  | false =>
    have sweeps : Prog.Within (SweepsIn TreeState.mm) PageTableTree.allocateRoot := by
      refine Prog.Within.get.bind fun t => ?_
      split_ifs
      · exact .throw _
      · exact Prog.Within.bind (allocPtPage_sweeps.zoom fun _ _ h => h) fun l0 =>
          Prog.Within.bind (allocPtPage_sweeps.zoom fun _ _ h => h) fun l1 =>
            .modify fun _ => .of_eq rfl rfl rfl
    refine onTree_post ((PageTableTree.allocateRoot_post f.shaped new).and (.of_within sweeps)) ?_ ?_
    · rintro _ t ⟨⟨unused, ty', rooted, confined, _⟩, sweeps⟩
      have others : ∀ j ≠ pid, (Sys.putTree pid t s).space j = s.space j := fun j ne => by
        simp only [Sys.putTree, setSpace, Function.update_of_ne ne]
      have mine : ((Sys.putTree pid t s).space pid).tree = t.tree := by
        simp only [Sys.putTree, setSpace, Function.update_self]
      have touched : Touched pid t.tree.l0Pa ty s ty' (Sys.putTree pid t s) :=
        ⟨confined, fun j ne => sameRoot_of_space (others j ne), .inr (.inr ⟨by rw [mine], rooted.top⟩)⟩
      refine f.kept l pid touched (f.foreign_new unused) sweeps fun j has => ?_
      by_cases eq : j = pid
      · subst eq
        rw [mine]
        intro kernel
        exact unused _ _ f.kernel (congrArg some kernel.symm)
      · rw [others j eq] at has ⊢
        exact l.own j has
    · rintro t ⟨⟨same, root, ty', unused, confined⟩, sweeps⟩
      have roots : SameRoots s (Sys.putTree pid t s) := by
        refine putTree_sameRoots ?_
        rw [TreeState.SameRoot, same]
        exact ⟨rfl, rfl⟩
      exact f.kept l pid (touched_of_sameRoots confined roots) (f.foreign_new unused) sweeps
        (l.sameRoots roots)

/-- A change of the tree's entries. -/
theorem Forest.modify_kept (f : Forest kernelRoot ty s) (l : Live kernelRoot ty s) {pid : Nat}
    {g : TreeState → TreeState} (tree : (g (s.treeOf pid)).tree = (s.treeOf pid).tree)
    (confined : (s.space pid).tree.hasRoot = true →
      Confined (s.space pid).tree.l0Pa ty s.mm ty (g (s.treeOf pid)).mm)
    (idle : (s.space pid).tree.hasRoot = false → (g (s.treeOf pid)).mm = s.mm)
    (sweeps : s.mm.Sweeps (g (s.treeOf pid)).mm) :
    Prog.Post (onTree pid (Prog.modify g)) s (fun _ s' => s'.Kept kernelRoot)
      (fun s' => s'.Kept kernelRoot) := by
  have same : SameRoots s (Sys.putTree pid (g (s.treeOf pid)) s) := by
    refine putTree_sameRoots ?_
    rw [TreeState.SameRoot, tree]
    exact ⟨rfl, rfl⟩
  refine onTree_post (T := fun _ t => t = g (s.treeOf pid)) (F := fun _ => False) (.modify rfl) ?_
    fun _ h => h.elim
  rintro _ _ rfl
  cases rooted : (s.space pid).tree.hasRoot with
  | true =>
    exact f.kept l pid (touched_of_sameRoots (confined rooted) same) (f.foreign_own rooted) sweeps
      (l.sameRoots same)
  | false =>
    obtain ⟨root, unused⟩ := PageTableTree.exists_unused f.shaped
    have still : Confined root ty s.mm ty (g (s.treeOf pid)).mm := by
      rw [idle rooted]
      exact .refl f.shaped
    exact f.kept l pid (touched_of_sameRoots still same) (f.foreign_new unused) sweeps (l.sameRoots same)

theorem Forest.cloneHighHalf_kept (f : Forest kernelRoot ty s) (l : Live kernelRoot ty s) (pid : Nat)
    {parent : Nat} (isRoot : s.IsRoot kernelRoot parent) :
    Prog.Post (onTree pid (Prog.modify (PageTableTree.cloneHighHalf parent))) s
      (fun _ s' => s'.Kept kernelRoot) (fun s' => s'.Kept kernelRoot) := by
  refine f.modify_kept l (PageTableTree.cloneHighHalf_tree parent _) (fun rooted => ?_)
    (fun unrooted => ?_) ?_
  · have top : PageTableTree.Rooted ty (s.treeOf pid) := ⟨f.shaped, rooted, f.root pid rooted⟩
    exact PageTableTree.cloneHighHalf_confined top (f.isRoot_site isRoot)
  · simp [PageTableTree.cloneHighHalf, treeOf, unrooted]
  · unfold PageTableTree.cloneHighHalf
    split_ifs
    · exact Mm.sweeps_setMem _ _
    · exact Std.Refl.refl s.mm

theorem Forest.cloneIdentityBlock_kept (f : Forest kernelRoot ty s) (l : Live kernelRoot ty s) (pid : Nat)
    {parent : Nat} (block : ¬ SharesIdentity s.mm.mem parent) :
    Prog.Post (onTree pid (Prog.modify (PageTableTree.cloneIdentityBlock parent))) s
      (fun _ s' => s'.Kept kernelRoot) (fun s' => s'.Kept kernelRoot) := by
  refine f.modify_kept l (PageTableTree.cloneIdentityBlock_tree parent _) (fun rooted => ?_)
    (fun unrooted => ?_) ?_
  · have top : PageTableTree.Rooted ty (s.treeOf pid) := ⟨f.shaped, rooted, f.root pid rooted⟩
    by_cases empty : readPte s.mm.mem (s.space pid).tree.l0Pa 0 = 0
    · -- there is no table to copy to
      have idle : PageTableTree.cloneIdentityBlock parent (s.treeOf pid) = s.treeOf pid := by
        simp [PageTableTree.cloneIdentityBlock, treeOf, empty]
      rw [idle]
      exact .refl f.shaped
    · have table := (f.shaped.root _ _ (f.root pid rooted) rfl 0 (by decide)).resolve_left empty
      have first : ref (readPte s.mm.mem (s.space pid).tree.l0Pa 0) ≠ none := by
        simp [ref, table]
      refine PageTableTree.cloneIdentityBlock_confined top first fun nonzero => ?_
      by_contra shares
      exact block ⟨nonzero, shares⟩
  · simp [PageTableTree.cloneIdentityBlock, treeOf, unrooted]
  · unfold PageTableTree.cloneIdentityBlock
    simp only
    split_ifs
    · exact Mm.sweeps_setMem _ _
    · exact Std.Refl.refl s.mm

theorem Forest.alloc_kept (f : Forest kernelRoot ty s) (l : Live kernelRoot ty s) {tag : PageTag}
    (used : tag ≠ .free) : Prog.Post (onMm (do let _ ← allocPage tag)) s
      (fun _ s' => s'.Kept kernelRoot) (fun s' => s'.Kept kernelRoot) := by
  obtain ⟨root, unused⟩ := PageTableTree.exists_unused f.shaped
  have keep : ∀ mm, s.mm.Beyond mm → s.mm.Sweeps mm → ({ s with mm } : Sys).Kept kernelRoot := by
    intro mm beyond sweeps
    have same : SameRoots s { s with mm } := fun j => ⟨rfl, rfl⟩
    have confined : Confined root ty s.mm ty mm := (beyond.untouched f.shaped).confined f.shaped
    exact f.kept l 0 (touched_of_sameRoots confined same) (f.foreign_new unused) sweeps
      (l.sameRoots same)
  have post : Prog.Post (do let _ ← allocPage tag : MmM Unit) s.mm
      (fun _ mm => s.mm.Beyond mm ∧ s.mm.Sweeps mm) (fun mm => s.mm.Beyond mm ∧ s.mm.Sweeps mm) := by
    refine (((Mm.Beyond.refl f.shaped.wf).alloc tag).and (.of_within (Mm.allocPage_sweeps used))).bind ?_
      |>.mono (fun _ _ h => h) fun _ h => h
    exact fun _ _ h => .pure ⟨h.1.2.2, h.2⟩
  exact post.zoom (fun _ mm h => keep mm h.1 h.2) fun mm h => keep mm h.1 h.2

/-! ## Steps that free frames -/

theorem freePages_noErr (pages : List Nat) : Prog.NoErr (Prog.forEach freePage pages) := by
  refine .forEach (fun pa mm e mm' run => ?_) pages
  unfold freePage at run
  split_ifs at run

theorem Forest.still (f : Forest kernelRoot ty s) {mm : Mm} (still : s.mm.Still mm) :
    Forest kernelRoot ty { s with mm } := ⟨f.shaped.still still, f.kernel, f.root, f.apart⟩

/-- A frame that is no table is given back. -/
theorem Forest.free_kept (f : Forest kernelRoot ty s) (l : Live kernelRoot ty s) {pa : Nat}
    (outside : ∀ p, s.Reached kernelRoot p → paToPfn p ≠ paToPfn pa)
    (ran : (onMm (freePage pa) s).Ends s') : s'.Kept kernelRoot := by
  obtain ⟨mm, ended, rfl⟩ := Prog.zoom_ends ran
  obtain ⟨ty', f', reached⟩ := f.trim
  have l' : Live kernelRoot ty' s :=
    ⟨fun p σ r hp => l.ram p σ r (reached p σ hp).1, fun p σ r hp => l.used p σ r (reached p σ hp).1, l.own⟩
  have freed : s.mm.Freed [pa] mm := by
    generalize run : freePage pa s.mm = out at ended
    cases ended with
    | ok a => exact freePages_freed ((Prog.bind_ok run).trans rfl)
    | err e =>
      unfold freePage at run
      split_ifs at run
  refine ⟨ty', f'.still freed.still, l'.freed f'.shaped freed fun p σ r hp _ _ _ mem => ?_⟩
  exact outside p (reached p σ hp).2 (by simpa using mem)

/-- The tables of a process. -/
theorem Live.inUse (f : Forest kernelRoot ty s) (l : Live kernelRoot ty s)
    (rooted : (s.space pid).tree.hasRoot = true) (alive : s.mm.tag (s.space pid).tree.l0Pa ≠ .free)
    {p : Nat} (lower : LowerTable s.mm.mem (s.space pid).tree.l0Pa p) : s.mm.InUse p := by
  obtain ⟨P, isPath, low, reach⟩ := lower
  have site := f.shaped.lower_site (f.root pid rooted) isPath low reach
  obtain ⟨ge, lt⟩ := l.ram p _ _ site rfl (l.own pid rooted)
  exact ⟨ge, lt, l.used p _ _ site rfl (l.own pid rooted) alive⟩

/-- The frame of a table of another tree is not among those of the tree. -/
theorem Forest.apart_treePages (f : Forest kernelRoot ty s) (l : Live kernelRoot ty s)
    (rooted : (s.space pid).tree.hasRoot = true) {p : Nat} {σ : Site} (typed : ty p = some σ)
    (owner : σ.owner = some r) (ne : r ≠ kernelRoot) (other : r ≠ (s.space pid).tree.l0Pa) :
    paToPfn p ∉ (treePages s.mm.mem (s.space pid).tree.l0Pa).map paToPfn := by
  intro mem
  obtain ⟨q, memq, same⟩ := List.mem_map.mp mem
  obtain ⟨P, isPath, low, reach⟩ := mem_treePages.mp memq
  have site := f.shaped.lower_site (f.root pid rooted) isPath low reach
  by_cases eq : p = q
  · subst eq
    rw [typed, Option.some.injEq] at site
    rw [site, Option.some.injEq] at owner
    exact other owner.symm
  · exact paToPfn_ne (f.shaped.aligned p σ typed) (f.shaped.aligned q _ site)
      (l.ram p σ r typed owner ne) (l.ram q _ _ site rfl (l.own pid rooted)) eq same.symm

theorem Forest.releasePt_kept (f : Forest kernelRoot ty s) (l : Live kernelRoot ty s)
    (rooted : (s.space pid).tree.hasRoot = true)
    (ran : (procMgmtReleasePt (s.space pid).tree.l0Pa s).Ends s') : s'.Kept kernelRoot := by
  unfold procMgmtReleasePt at ran
  split_ifs at ran
  · cases ran
    exact ⟨ty, f, l⟩
  · obtain ⟨mm, ended, rfl⟩ := Prog.zoom_ends ran
    rw [freePageTableTree_eq] at ended
    have freed : s.mm.Freed (treePages s.mm.mem (s.space pid).tree.l0Pa) mm := by
      generalize run : Prog.forEach freePage _ s.mm = out at ended
      cases ended with
      | ok a => exact freePages_freed run
      | err e => exact absurd run (freePages_noErr _ _ _ _)
    refine ⟨ty, f.still freed.still, l.freed f.shaped freed fun p σ r hp owner ne used => ?_⟩
    refine f.apart_treePages l rooted hp owner ne ?_
    -- the root itself has been freed
    rintro rfl
    exact used (freed.free _ (mem_treePages.mpr lower_root))

theorem Kept.step (h : s.Kept kernelRoot) {op : TableOp} (meets : op.PrivateIdentity s)
    (step : (tableKeeper kernelRoot).Steps op s s') : s'.Kept kernelRoot := by
  obtain ⟨ty, f, l⟩ := h
  have ran := step.ran
  have enabled := step.enabled
  have of_post : ∀ {m : SysM Unit}, Prog.Post m s (fun _ s' => s'.Kept kernelRoot)
      (fun s' => s'.Kept kernelRoot) → (m s).Ends s' → s'.Kept kernelRoot := fun post ran => by
    rcases post.ends ran with ⟨_, kept⟩ | kept
    · exact kept
    · exact kept
  cases op with
  | allocateRoot pid => exact of_post (f.allocateRoot_kept l pid) ran
  | cloneHighHalf pid parent => exact of_post (f.cloneHighHalf_kept l pid enabled) ran
  | cloneIdentityBlock pid parent => exact of_post (f.cloneIdentityBlock_kept l pid meets) ran
  | mapVa pid va pa flags =>
    have state := ran.state_eq
    obtain ⟨r, ty', foreign, touched⟩ := f.mapVa pid va pa flags
    have sweeps := mapVa_sweeps pid va pa flags s
    have same := mapVa_sameRoots pid va pa flags s
    simp only [tableKeeper, TableOp.exec] at state
    rw [state] at touched sweeps same
    exact f.kept l pid touched foreign sweeps (l.sameRoots same)
  | mapPageUnderL0 pid va pa flags =>
    have state := ran.state_eq
    obtain ⟨ty', touched⟩ := f.mapPageUnderL0 enabled va pa flags
    have sweeps := mapPageUnderL0_sweeps (s.space pid).tree.l0Pa va pa flags s
    have same := mapPageUnderL0_sameRoots (s.space pid).tree.l0Pa va pa flags s
    simp only [tableKeeper, TableOp.exec] at state
    rw [state] at touched sweeps same
    exact f.kept l pid touched (f.foreign_own enabled) sweeps (l.sameRoots same)
  | alloc tag => exact of_post (f.alloc_kept l enabled) ran
  | free pa => exact f.free_kept l enabled ran
  | releasePt pid => exact f.releasePt_kept l enabled ran

end Sys

/-! ## Releasing a tree -/

/-- The tree has been freed: each table of its lower half once, and nothing of the other trees. -/
structure TreeReleased (root : Nat) (s s' : Sys) : Prop where
  os : s'.os = s.os
  space : s'.space = s.space
  mem : s'.mm.mem = s.mm.mem
  freed : ∃ pages : List Nat, s'.mm.freeLog = s.mm.freeLog ++ pages ∧ pages.Nodup ∧
    ∀ p, p ∈ pages ↔ LowerTable s.mm.mem root p
  free : ∀ p, LowerTable s.mm.mem root p → s'.mm.tag p = .free
  others : ∀ j, (s.space j).tree.hasRoot = true → (s.space j).tree.l0Pa ≠ root →
    ∀ p, LowerTable s.mm.mem (s.space j).tree.l0Pa p → s'.mm.tag p = s.mm.tag p
  again : ∃ u, Sys.procMgmtReleasePt root s' = .fault u

theorem release_frees_tree {kernelRoot : Nat} {s₀ s : Sys} (boot : MmuOn kernelRoot s₀)
    (run : (tableKeeper kernelRoot).Run (fun s op => op.PrivateIdentity s) s₀ s) (pid : Nat)
    (rooted : (s.space pid).tree.hasRoot = true) (alive : s.mm.tag (s.space pid).tree.l0Pa ≠ .free) :
    ∃ s', Sys.procMgmtReleasePt (s.space pid).tree.l0Pa s = .ok () s' ∧
      TreeReleased (s.space pid).tree.l0Pa s s' := by
  have kept : s.Kept kernelRoot := by
    refine run.invariant ?_ fun op s s' h meets step => h.step meets step
    obtain ⟨ty, f⟩ := boot.forest
    exact f.live boot.unrooted
  obtain ⟨ty, f, l⟩ := kept
  have top := f.root pid rooted
  obtain ⟨mm, freeing, nodup, freed, u, stop⟩ := freePageTableTree_frees f.shaped top
    fun p => l.inUse f rooted alive
  have valid : ¬ ((s.space pid).tree.l0Pa = 0 ∨ (s.space pid).tree.l0Pa % 4096 ≠ 0) := by
    have ram := (l.inUse f rooted alive lower_root).ge_ram
    have al := f.shaped.aligned _ _ top
    unfold ramBase pageSize at *
    omega
  refine ⟨{ s with mm }, ?_, rfl, rfl, freed.still.mem_eq,
    ⟨_, freed.log, nodup, fun p => mem_treePages⟩, fun p lower => freed.free p (mem_treePages.mpr lower), ?_,
    { s with mm := u }, ?_⟩
  · rw [Sys.procMgmtReleasePt, if_neg valid]
    exact Prog.zoom_ok freeing
  · rintro j has ne p ⟨P, isPath, low, reach⟩
    have site := f.shaped.lower_site (f.root j has) isPath low reach
    exact freed.others p (f.apart_treePages l rooted site rfl (l.own j has) ne)
  · rw [Sys.procMgmtReleasePt, if_neg valid]
    exact Prog.zoom_fault stop

/-! ### A process beside the kernel -/

/-- A tree as a launch makes it, and a frame taken for something else. -/
def TableOp.launched : List TableOp :=
  [.allocateRoot 1, .mapVa 1 0x9000000 0x9000000 .deviceRwUser, .cloneHighHalf 1 0x40200000,
    .cloneIdentityBlock 1 0x40200000, .alloc .vmoData]

def Sys.built : Sys := (tableKeeper 0x40200000).after switchedOn TableOp.launched

theorem Sys.built_run :
    (tableKeeper 0x40200000).Run (fun s op => op.PrivateIdentity s) switchedOn built := by
  have follows : (tableKeeper 0x40200000).Follows (fun s op => op.PrivateIdentity s) switchedOn
      TableOp.launched :=
    ⟨trivial, trivial, by decide +kernel, trivial, trivial, by decide +kernel, trivial, Or.inl rfl,
      by decide +kernel, by unfold TableOp.PrivateIdentity; decide +kernel, Or.inl rfl,
      by decide +kernel, trivial, PageTag.noConfusion, by decide +kernel, trivial⟩
  exact Stepper.Run.start.follow follows

theorem release_frees_tree_built :
    ∃ s', Sys.procMgmtReleasePt (Sys.built.space 1).tree.l0Pa Sys.built = .ok () s' ∧
      TreeReleased (Sys.built.space 1).tree.l0Pa Sys.built s' := by
  have root : (Sys.built.space 1).tree.hasRoot = true ∧
      Sys.built.mm.tag (Sys.built.space 1).tree.l0Pa ≠ .free := by decide +kernel
  exact release_frees_tree Sys.switchedOn_mmuOn Sys.built_run 1 root.1 root.2

end CapsuleOS
