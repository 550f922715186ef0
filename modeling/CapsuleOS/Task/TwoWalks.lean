import CapsuleOS.Arch.Levels
import CapsuleOS.Arch.TreeSteps
import CapsuleOS.Task.Forest
import CapsuleOS.Task.ProcessRuns

/-!
# The two mapping routines agree

Trees are built from the tables that the MMU is switched on with: roots are allocated, entries are
copied from other trees, and pages are mapped by either routine, with anything else in between that
leaves the tables alone. In every state that is reached `map_page_under_l0` and `map_va` end in the same
way and leave the same memory (`mapping_paths_agree`).
-/
namespace CapsuleOS

open Lib

/-! ## The two walkers -/

theorem TreeState.track_registered (pa : Nat) (s : TreeState) : s.mm.Registered pa (s.track pa).mm := by
  unfold track
  split_ifs
  · exact .refl pa s.mm
  · exact .refl pa s.mm
  · exact ⟨⟨rfl, rfl, rfl⟩, rfl, fun q ne => isLivePtPage_register ne⟩

theorem partMask_pageTable : PartMask 0x000F000000000FFF := by
  unfold PartMask
  decide

theorem partMask_mmu : PartMask 0xFFF0000000000FFF := by
  unfold PartMask
  decide

theorem PageTableTree.walker_regular : PageTableTree.walker.Regular where
  toStandard := walker_standard
  view_put _ _ := rfl
  track := TreeState.track_registered
  trackSplit := TreeState.track_registered
  mask := partMask_pageTable

theorem Sys.walker_regular (l0Pa : Nat) : (Sys.walker l0Pa).Regular where
  toStandard := walker_standard l0Pa
  view_put _ _ := rfl
  track pa s := by
    simp only [walker, registerForL0]
    split
    · exact TreeState.track_registered pa (s.treeOf _)
    · exact .refl pa s.mm
  trackSplit pa s := by
    simp only [walker, registerCurrent]
    split
    · exact .refl pa s.mm
    · split
      · exact TreeState.track_registered pa (s.treeOf _)
      · exact .refl pa s.mm
  mask := partMask_mmu

/-! ## Building trees -/

/-- The root of the kernel's tables or of a process. -/
def Sys.IsRoot (kernelRoot : Nat) (s : Sys) (root : Nat) : Prop :=
  root = kernelRoot ∨ ∃ j, (s.space j).tree.hasRoot = true ∧ (s.space j).tree.l0Pa = root

/-- A step that writes no table, gives no frame a second time and makes no new roots. -/
structure Sys.SparesTables (kernelRoot : Nat) (s s' : Sys) : Prop where
  wf : s'.mm.WF
  spent : ∀ q, s.mm.Spent q → s'.mm.Spent q
  roots : ∀ r, s'.IsRoot kernelRoot r → s.IsRoot kernelRoot r
  tables : ∀ r, s.IsRoot kernelRoot r → ∀ P p, IsPath P → tableAt s.mm.mem r P = some p →
    s.mm.mem.SameOn s'.mm.mem p pageSize

inductive TreeOp where
  | allocateRoot (pid : Nat)
  | setRootRaw (pid l0Pa : Nat)
  | cloneHighHalf (pid parent : Nat)
  | cloneIdentityBlock (pid parent : Nat)
  | mapVa (pid va pa : Nat) (flags : MapFlags)
  | mapPageUnderL0 (l0Pa va pa : Nat) (flags : MapFlags)
  | freeTree (pid : Nat)
  | other (s' : Sys)

namespace TreeOp

def exec : TreeOp → SysM Unit
  | .allocateRoot pid => Sys.onTree pid PageTableTree.allocateRoot
  | .setRootRaw pid l0Pa => Sys.onTree pid (Prog.modify (PageTableTree.setRootRaw l0Pa))
  | .cloneHighHalf pid parent => Sys.onTree pid (Prog.modify (PageTableTree.cloneHighHalf parent))
  | .cloneIdentityBlock pid parent =>
    Sys.onTree pid (Prog.modify (PageTableTree.cloneIdentityBlock parent))
  | .mapVa pid va pa flags => Sys.onTree pid (PageTableTree.mapVa va pa flags)
  | .mapPageUnderL0 l0Pa va pa flags => Sys.mapPageUnderL0 l0Pa va pa flags
  | .freeTree pid => Sys.onTree pid PageTableTree.freeTree
  | .other s' => Prog.modify fun _ => s'

/-- The addresses of tables are those of roots. -/
def Enabled (kernelRoot : Nat) (s : Sys) : TreeOp → Prop
  | .setRootRaw _ l0Pa => s.IsRoot kernelRoot l0Pa
  | .cloneHighHalf _ parent => s.IsRoot kernelRoot parent
  | .cloneIdentityBlock _ parent => s.IsRoot kernelRoot parent
  | .mapPageUnderL0 l0Pa _ _ _ => s.IsRoot kernelRoot l0Pa
  | .other s' => s.SparesTables kernelRoot s'
  | _ => True

end TreeOp

def treeBuilder (kernelRoot : Nat) : Stepper Sys Status TreeOp where
  exec := TreeOp.exec
  Enabled := TreeOp.Enabled kernelRoot

/-- The tables that are reached from a root have the length of the path as their level. -/
theorem Leveled.tableAt_level {lvl : Levels} {mm : Mm} (h : Leveled lvl mm)
    {root : Nat} (top : lvl root = some 0) {P : List Nat} {p : Nat} (isPath : IsPath P)
    (reach : tableAt mm.mem root P = some p) : lvl p = some P.length := by
  induction P using List.reverseRecOn generalizing p with
  | nil =>
    cases reach
    exact top
  | append_singleton P i ih =>
    obtain ⟨isPath', short, hi⟩ := isPath.init
    rw [tableAt, Radix.follow_snoc] at reach
    obtain ⟨q, before, link⟩ := Option.bind_eq_some_iff.mp reach
    have at_q := ih isPath' before
    rw [List.length_append, List.length_singleton]
    exact (h.entries q _ at_q i hi).table short p link

/-- All tables have levels, and the roots are at the top. -/
structure Sys.Charted (kernelRoot : Nat) (lvl : Levels) (s : Sys) : Prop where
  leveled : Leveled lvl s.mm
  roots : ∀ r, s.IsRoot kernelRoot r → lvl r = some 0

namespace Sys

variable {kernelRoot pid : Nat} {lvl lvl' : Levels} {s s' : Sys}

/-- The same levels or more after a step. -/
def Recharted (kernelRoot : Nat) (s : Sys) : Prop := ∃ lvl, s.Charted kernelRoot lvl

theorem isRoot_of_sameRoots (same : SameRoots s s') {r : Nat} (root : s'.IsRoot kernelRoot r) :
    s.IsRoot kernelRoot r := by
  rcases root with rfl | ⟨j, rooted, rfl⟩
  · exact Or.inl rfl
  · exact Or.inr ⟨j, (same j).2 ▸ rooted, (same j).1.symm⟩

theorem Charted.sameRoots (h : s.Charted kernelRoot lvl) (more : lvl.Extends lvl')
    (leveled : Leveled lvl' s'.mm) (same : SameRoots s s') : s'.Recharted kernelRoot :=
  ⟨lvl', leveled, fun r root => more _ _ (h.roots r (isRoot_of_sameRoots same root))⟩

/-- One tree gets a root, or loses it. -/
theorem Charted.putTree (h : s.Charted kernelRoot lvl) (more : lvl.Extends lvl') {t : TreeState}
    (leveled : Leveled lvl' t.mm) (own : t.tree.hasRoot = true → lvl' t.tree.l0Pa = some 0) :
    (Sys.putTree pid t s).Recharted kernelRoot := by
  refine ⟨lvl', leveled, ?_⟩
  rintro r (rfl | ⟨j, rooted, rfl⟩)
  · exact more _ _ (h.roots r (Or.inl rfl))
  · by_cases eq : j = pid
    · subst eq
      simp only [Sys.putTree, setSpace, Function.update_self] at rooted ⊢
      exact own rooted
    · simp only [Sys.putTree, setSpace, Function.update_of_ne eq] at rooted ⊢
      exact more _ _ (h.roots _ (Or.inr ⟨j, rooted, rfl⟩))

theorem Charted.own (h : s.Charted kernelRoot lvl) (rooted : (s.space pid).tree.hasRoot = true) :
    lvl (s.space pid).tree.l0Pa = some 0 := h.roots _ (Or.inr ⟨pid, rooted, rfl⟩)

open Classical in
/-- Only the tables that are reached from a root keep their level. -/
theorem Charted.spares (h : s.Charted kernelRoot lvl) (spares : s.SparesTables kernelRoot s') :
    s'.Recharted kernelRoot := by
  let reached : Nat → Prop := fun p => ∃ r P, s.IsRoot kernelRoot r ∧ IsPath P ∧
    tableAt s.mm.mem r P = some p
  refine ⟨fun p => if reached p then lvl p else none, ⟨spares.wf, ?_, ?_, ?_⟩, fun r root => ?_⟩
  · intro p ℓ hp
    exact h.leveled.aligned p ℓ (Option.ite_none_right_eq_some.mp hp).2
  · intro p ℓ hp
    exact spares.spent p (h.leveled.spent p ℓ (Option.ite_none_right_eq_some.mp hp).2)
  · intro p ℓ hp i hi
    obtain ⟨⟨r, P, root, isPath, reach⟩, hp⟩ := Option.ite_none_right_eq_some.mp hp
    rw [readPte_sameOn (spares.tables r root P p isPath reach) hi]
    have ok := h.leveled.entries p ℓ hp i hi
    refine ⟨fun lt q link => ?_, ok.block, ok.root⟩
    have level := h.leveled.tableAt_level (h.roots r root) isPath reach
    rw [hp, Option.some.injEq] at level
    have further : reached q := by
      refine ⟨r, P ++ [i], root, ⟨by simpa using by omega, ?_⟩, ?_⟩
      · intro j mem
        rw [List.mem_append, List.mem_singleton] at mem
        rcases mem with mem | rfl
        · exact isPath.2 j mem
        · exact hi
      · rw [tableAt, Radix.follow_snoc]
        exact Option.bind_eq_some_iff.mpr ⟨p, reach, link⟩
    rw [if_pos further]
    exact ok.table lt q link
  · have root' := spares.roots r root
    rw [if_pos ⟨r, [], root', ⟨by simp, by simp⟩, rfl⟩]
    exact h.roots r root'

/-- A routine on one tree that gives it no root but one of the top level. -/
theorem Charted.onTree (h : s.Charted kernelRoot lvl) {m : TreeM Unit}
    (post : Prog.Post m (s.treeOf pid)
      (fun _ t => ∃ lvl', lvl.Extends lvl' ∧ Leveled lvl' t.mm ∧
        (t.tree.hasRoot = true → lvl' t.tree.l0Pa = some 0))
      (fun t => ∃ lvl', lvl.Extends lvl' ∧ Leveled lvl' t.mm ∧
        (t.tree.hasRoot = true → lvl' t.tree.l0Pa = some 0))) :
    Prog.Post (onTree pid m) s (fun _ s' => s'.Recharted kernelRoot)
      (fun s' => s'.Recharted kernelRoot) :=
  onTree_post post (fun _ _ ⟨_, more, leveled, own⟩ => h.putTree more leveled own)
    fun _ ⟨_, more, leveled, own⟩ => h.putTree more leveled own

theorem Charted.mapVa (h : s.Charted kernelRoot lvl) (va pa : Nat) (flags : MapFlags) :
    Prog.Post (Sys.onTree pid (PageTableTree.mapVa va pa flags)) s
      (fun _ s' => s'.Recharted kernelRoot) (fun s' => s'.Recharted kernelRoot) := by
  have stay : ∃ lvl', lvl.Extends lvl' ∧ Leveled lvl' (s.treeOf pid).mm ∧
      ((s.treeOf pid).tree.hasRoot = true → lvl' (s.treeOf pid).tree.l0Pa = some 0) :=
    ⟨lvl, .refl, h.leveled, h.own⟩
  refine h.onTree (Prog.Post.get_bind ?_)
  split_ifs with misaligned unrooted
  · exact .throw stay
  · exact .throw stay
  · have rooted : (s.treeOf pid).tree.hasRoot = true := by simpa using unrooted
    have beside : PageTableTree.walker.Beside PageTableTree.walker lvl (s.treeOf pid) (s.treeOf pid) :=
      ⟨h.leveled, .refl _⟩
    have steps := Walker.mapPage_lockstep PageTableTree.walker_regular PageTableTree.walker_regular
      beside (h.own rooted) va pa flags
    have same := PageTableTree.mapPage_sameRoot (s.treeOf pid).tree.l0Pa va pa flags
    refine (steps.left.and (.of_within same)).mono ?_ ?_
    · rintro _ t ⟨⟨_, lvl', more, beside⟩, root, has⟩
      exact ⟨lvl', more, beside.leveled, fun _ => root ▸ more _ _ (h.own rooted)⟩
    · rintro t ⟨⟨_, lvl', more, beside⟩, root, has⟩
      exact ⟨lvl', more, beside.leveled, fun _ => root ▸ more _ _ (h.own rooted)⟩

theorem Charted.mapPageUnderL0 (h : s.Charted kernelRoot lvl) {l0Pa : Nat}
    (root : s.IsRoot kernelRoot l0Pa) (va pa : Nat) (flags : MapFlags) :
    Prog.Post (Sys.mapPageUnderL0 l0Pa va pa flags) s (fun _ s' => s'.Recharted kernelRoot)
      (fun s' => s'.Recharted kernelRoot) := by
  unfold Sys.mapPageUnderL0
  split_ifs
  · exact .throw ⟨lvl, h⟩
  · have beside : (walker l0Pa).Beside (walker l0Pa) lvl s s := ⟨h.leveled, .refl _⟩
    have steps := Walker.mapPage_lockstep (walker_regular l0Pa) (walker_regular l0Pa) beside
      (h.roots l0Pa root) va pa flags
    have same := Walker.mapPage_within (onMm_sameRoots l0Pa _) (fun _ _ _ => onMm_sameRoots _ _)
      (registerForL0_sameRoots l0Pa) registerCurrent_sameRoots l0Pa va pa flags
    refine (steps.left.and (.of_within same)).mono ?_ ?_
    · rintro _ t ⟨⟨_, lvl', more, beside⟩, roots⟩
      exact h.sameRoots more beside.leveled roots
    · rintro t ⟨⟨_, lvl', more, beside⟩, roots⟩
      exact h.sameRoots more beside.leveled roots

theorem Charted.step (h : s.Charted kernelRoot lvl) {op : TreeOp}
    (step : (treeBuilder kernelRoot).Steps op s s') : s'.Recharted kernelRoot := by
  suffices post : Prog.Post op.exec s (fun _ s' => s'.Recharted kernelRoot)
      (fun s' => s'.Recharted kernelRoot) by
    rcases post.ends step.ran with ⟨_, charted⟩ | charted
    · exact charted
    · exact charted
  have enabled := step.enabled
  cases op with
  | allocateRoot pid =>
    refine h.onTree ((PageTableTree.allocateRoot_leveled h.leveled).mono ?_ ?_)
    · rintro _ t ⟨lvl', more, leveled, top⟩
      exact ⟨lvl', more, leveled, fun _ => top⟩
    · rintro t ⟨same, lvl', more, leveled⟩
      rw [same]
      exact ⟨lvl', more, leveled, fun rooted => more _ _ (h.own rooted)⟩
  | setRootRaw pid l0Pa =>
    refine h.onTree (.modify ⟨lvl, .refl, ?_, fun _ => ?_⟩)
    · exact h.leveled.still (TreeState.track_still l0Pa { s.treeOf pid with tree := _ })
    · rw [PageTableTree.setRootRaw, (TreeState.track_sameRoot _ _).1]
      exact h.roots l0Pa enabled
  | cloneHighHalf pid parent =>
    have leveled := PageTableTree.cloneHighHalf_leveled (s := s.treeOf pid) h.leveled
      (h.roots parent enabled) h.own
    refine h.onTree (.modify ⟨lvl, .refl, leveled, ?_⟩)
    rw [PageTableTree.cloneHighHalf_tree]
    exact h.own
  | cloneIdentityBlock pid parent =>
    have leveled := PageTableTree.cloneIdentityBlock_leveled (s := s.treeOf pid) h.leveled
      (h.roots parent enabled) h.own
    refine h.onTree (.modify ⟨lvl, .refl, leveled, ?_⟩)
    rw [PageTableTree.cloneIdentityBlock_tree]
    exact h.own
  | mapVa pid va pa flags => exact h.mapVa va pa flags
  | mapPageUnderL0 l0Pa va pa flags => exact h.mapPageUnderL0 enabled va pa flags
  | freeTree pid =>
    refine h.onTree (Prog.Post.get_bind ?_)
    split_ifs
    · have dropped : Prog.Post (TreeState.onMm (dropPhysPages (s.treeOf pid).tree.tracked.reverse))
          (s.treeOf pid) (fun _ t => Leveled lvl t.mm)
          (fun t => Leveled lvl t.mm ∧ t.tree = (s.treeOf pid).tree) :=
        Prog.Post.zoom (Prog.Post.of_within (Mm.dropPhysPages_still _))
          (fun _ _ still => h.leveled.still still) fun _ still => ⟨h.leveled.still still, rfl⟩
      refine Prog.Post.bind (dropped.mono (fun _ _ out => out) ?_) ?_
      · rintro t ⟨leveled, same⟩
        rw [same]
        exact ⟨lvl, .refl, leveled, h.own⟩
      · exact fun _ t leveled => .modify ⟨lvl, .refl, leveled, fun rooted => by cases rooted⟩
    · exact .pure ⟨lvl, .refl, h.leveled, h.own⟩
  | other s' => exact .modify (h.spares enabled)

end Sys

theorem MmuOn.recharted {kernelRoot : Nat} {s : Sys} (h : MmuOn kernelRoot s) :
    s.Recharted kernelRoot := by
  obtain ⟨ramBase, m, wf, run⟩ := h.enabled
  obtain ⟨lvl, leveled, top⟩ := (enableInner_leveled wf ramBase).ok _ _ run
  refine ⟨lvl, leveled, ?_⟩
  rintro r (rfl | ⟨j, rooted, _⟩)
  · exact top
  · rw [h.unrooted j] at rooted
    cases rooted

/-- The two memories are the same, and so is what a walk from the root finds in them. -/
structure SameTables (root : Nat) (m m' : Mem) : Prop where
  mem : m' = m
  translate : ∀ va, PageTableTree.translate m' root va = PageTableTree.translate m root va
  access : ∀ va, el0Access m' root va = el0Access m root va

theorem SameTables.of_eq {root : Nat} {m m' : Mem} (h : m' = m) : SameTables root m m' := by
  subst h
  exact ⟨rfl, fun _ => rfl, fun _ => rfl⟩

/-- In every tree that has been built, the two routines map a page in the same way. -/
theorem mapping_paths_agree {kernelRoot : Nat} {s₀ s : Sys} (boot : MmuOn kernelRoot s₀)
    (run : (treeBuilder kernelRoot).Run (fun _ _ => True) s₀ s) (pid : Nat)
    (rooted : (s.space pid).tree.hasRoot = true) (va pa : Nat) (flags : MapFlags) :
    Prog.Lockstep (Sys.mapPageUnderL0 (s.space pid).tree.l0Pa va pa flags)
      (PageTableTree.mapVa va pa flags) s (s.treeOf pid)
      (fun _ u t => SameTables (s.space pid).tree.l0Pa u.mm.mem t.mm.mem)
      (fun u t => SameTables (s.space pid).tree.l0Pa u.mm.mem t.mm.mem) := by
  have charted : s.Recharted kernelRoot := run.invariant boot.recharted
    fun op s s' ⟨_, h⟩ _ step => h.step step
  obtain ⟨lvl, h⟩ := charted
  have beside : (Sys.walker (s.space pid).tree.l0Pa).Beside PageTableTree.walker lvl s (s.treeOf pid) :=
    ⟨h.leveled, .refl _⟩
  refine Prog.Lockstep.bind_get ?_
  have has : (!(s.treeOf pid).tree.hasRoot) = false := by rw [Bool.not_eq_false']; exact rooted
  unfold Sys.mapPageUnderL0
  simp only [has, Bool.false_eq_true, if_false]
  split_ifs
  · exact .throw (.of_eq rfl)
  · refine (Walker.mapPage_lockstep (Sys.walker_regular _) PageTableTree.walker_regular beside
      (h.own rooted) va pa flags).mono ?_ ?_
    · rintro _ u t ⟨_, _, beside⟩
      exact .of_eq beside.twin.mem_eq
    · rintro u t ⟨_, _, beside⟩
      exact .of_eq beside.twin.mem_eq

/-! ### A process beside the kernel -/

def Sys.switchedOn : Sys where
  os := Os.boot
  mm := (enableInner 0x40000000 (Mm.boot 0x40200000 0x50000000)).state
  space _ := Space.newDummy

theorem Sys.switchedOn_mmuOn : MmuOn 0x40200000 Sys.switchedOn where
  enabled := ⟨0x40000000, Mm.boot 0x40200000 0x50000000, ⟨by decide, by decide⟩,
    Outcome.eq_ok_of_value? (by decide +kernel)⟩
  unrooted _ := rfl

/-- A tree as a launch makes it, with the block of the kernel at its identity entry. -/
def TreeOp.likeLaunch : List TreeOp :=
  [.allocateRoot 1, .mapVa 1 0x9000000 0x9000000 .deviceRwUser, .cloneHighHalf 1 0x40200000,
    .cloneIdentityBlock 1 0x40200000]

def Sys.likeLaunched : Sys := (treeBuilder 0x40200000).after switchedOn TreeOp.likeLaunch

theorem Sys.likeLaunched_run :
    (treeBuilder 0x40200000).Run (fun _ _ => True) switchedOn likeLaunched := by
  have follows : (treeBuilder 0x40200000).Follows (fun _ _ => True) switchedOn TreeOp.likeLaunch :=
    ⟨trivial, trivial, by decide +kernel, trivial, trivial, by decide +kernel, trivial, Or.inl rfl,
      by decide +kernel, trivial, Or.inl rfl, by decide +kernel, trivial⟩
  exact Stepper.Run.start.follow follows

/-- A page inside the block. -/
theorem mapping_paths_agree_likeLaunched :
    Prog.Lockstep
      (Sys.mapPageUnderL0 (Sys.likeLaunched.space 1).tree.l0Pa 0x40400000 0x48000000 .userRx)
      (PageTableTree.mapVa 0x40400000 0x48000000 .userRx) Sys.likeLaunched (Sys.likeLaunched.treeOf 1)
      (fun _ u t => SameTables (Sys.likeLaunched.space 1).tree.l0Pa u.mm.mem t.mm.mem)
      (fun u t => SameTables (Sys.likeLaunched.space 1).tree.l0Pa u.mm.mem t.mm.mem) :=
  mapping_paths_agree Sys.switchedOn_mmuOn Sys.likeLaunched_run 1 (by decide +kernel) 0x40400000
    0x48000000 .userRx

end CapsuleOS
