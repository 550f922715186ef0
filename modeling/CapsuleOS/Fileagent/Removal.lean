import CapsuleOS.Fileagent.Grafts
import CapsuleOS.Fileagent.Vfs

/-!
# Removal by path

`do_rmdir` and `do_unlink` resolve the path and take the node out. Where siblings have different names, just
the paths to the node end. Neither looks at the type: a node with no children goes, whether it is a file or a
directory. So each of the two keeps to what it is for exactly on the paths that do not lead to a node of the
other's.
-/
namespace CapsuleOS.Fileagent

open Lib

/-! ## Trees whose siblings have different names -/

structure Tidy (s : Fs) (kids : Idx → List Idx) (depth : Idx → Nat) : Prop extends Tree s kids depth where
  distinct : (s.nameTree kids).Distinct
  top : s.parents rootIdx = none

def Fs.IsTidy (s : Fs) : Prop := ∃ kids depth, Tidy s kids depth

def RamOp.Apart (s : Fs) : RamOp → Prop
  | .tree op => op.Apart s
  | .write _ _ _ => True

instance (s : Fs) : (op : RamOp) → Decidable (op.Apart s)
  | .tree op => inferInstanceAs (Decidable (op.Apart s))
  | .write _ _ _ => inferInstanceAs (Decidable True)

section Steps

variable {s s' : Fs} {kids kids' : Idx → List Idx} {depth : Idx → Nat} {p c d : Idx}
  {names : List (List UInt8)} {ntype : NodeType} {xs ys : List Idx} {prev : Option Idx}

theorem Grafted.top (h : Grafted ntype s kids p names s' kids' d) (top : s.parents rootIdx = none) :
    s'.parents rootIdx = none := by
  induction h with
  | done => exact top
  | next _ ne_root _ _ ih =>
    refine ih ?_
    rw [planted_parents, Function.update_of_ne ne_root.symm]
    exact top

@[simp] theorem unlink_names : (s.unlink p c prev).names = Function.update s.names c [] := by
  cases prev <;> rfl

theorem unlink_nameTree (h : Tree s kids depth) (list : kids p = xs ++ c :: ys) :
    (s.unlink p c prev).nameTree (Function.update kids p (xs ++ ys)) = (s.nameTree kids).erase p c [] := by
  have nodup := h.nodup p
  rw [list] at nodup
  have away := (List.nodup_cons.mp (List.nodup_middle.mp nodup)).1
  have rest : (kids p).filter (· ≠ c) = xs ++ ys := by
    have others : ∀ x ∈ xs ++ ys, decide (x ≠ c) = true := fun x mem =>
      decide_eq_true fun eq : x = c => away (eq ▸ mem)
    obtain ⟨in_xs, in_ys⟩ := List.forall_mem_append.mp others
    rw [list, List.filter_append, List.filter_cons_of_neg (by simp), List.filter_eq_self.mpr in_xs,
      List.filter_eq_self.mpr in_ys]
  simp only [Fs.nameTree, NameTree.erase, rest, unlink_names]

/-- A node is a child of one node only. -/
theorem Tree.only (h : Tree s kids depth) (mem : c ∈ kids p) : ∀ q ≠ p, c ∉ kids q := fun q ne mem' =>
  ne (Option.some.inj ((h.parent q c mem').symm.trans (h.parent p c mem)))

theorem Tidy.unlink (h : Tidy s kids depth) (list : kids p = xs ++ c :: ys) (leaf : kids c = []) :
    Tidy (s.unlink p c xs.getLast?) (Function.update kids p (xs ++ ys)) depth := by
  have mem : c ∈ kids p := by simp [list]
  refine ⟨h.toTree.unlink list leaf, ?_, ?_⟩
  · rw [unlink_nameTree h.toTree list]
    exact h.distinct.erase (h.toTree.only mem)
  · have ne : rootIdx ≠ c := by
      rintro rfl
      exact h.not_root p mem
    rw [unlink_parents, Function.update_of_ne ne]
    exact h.top

theorem Tidy.grafted (h : Tidy s kids depth) (grafted : Grafted ntype s kids p names s' kids' d)
    (new : ∀ n ∈ names.head?, (s.nameTree kids).child p (n.take (maxName - 1)) = none) : s'.IsTidy := by
  obtain ⟨depth', tree⟩ := grafted.tree h.toTree
  exact ⟨kids', depth', tree, grafted.distinct h.toTree h.distinct new, grafted.top h.top⟩

theorem Tidy.written (h : Tidy s kids depth) (i : Idx) (data : List UInt8) (offset : Nat) :
    Tidy (s.written i data offset) kids depth :=
  ⟨{ h.toTree with }, h.distinct, h.top⟩

/-- The names that a call stores are new. -/
theorem FsOp.Apart.first_new {op : FsOp} (apart : op.Apart s) (h : Tree s kids depth) {made left : List (List UInt8)}
    (at_p : op.makes s = some (p, made ++ left)) :
    ∀ n ∈ made.head?, (s.nameTree kids).child p (n.take (maxName - 1)) = none := by
  intro n first
  have head : n ∈ (made ++ left).head? := by
    rw [List.head?_append, first]
    rfl
  have missing := apart.new (p, made ++ left) at_p n head
  rw [h.child_eq] at missing
  exact Option.some.inj missing

theorem Fs.IsTidy.step (h : s.IsTidy) {op : RamOp} (apart : op.Apart s) (step : RamOp.system.Steps op s s') :
    s'.IsTidy := by
  obtain ⟨kids, depth, tidy⟩ := h
  cases op with
  | write idx data offset =>
    rcases RamOp.write_ends step with rfl | ⟨i, _, rfl⟩
    · exact ⟨kids, depth, tidy⟩
    · exact ⟨kids, depth, tidy.written i data offset⟩
  | tree op =>
    have apart : op.Apart s := apart
    rcases op.step_cases tidy.toTree apart.meets step.ran with
      rfl | ⟨ntype, p, made, left, kids', d, at_p, grafted⟩ | ⟨p, c, xs, ys, list, leaf, rfl⟩
    · exact ⟨kids, depth, tidy⟩
    · obtain ⟨more, makes⟩ := grafted.makes at_p
      exact tidy.grafted grafted (apart.first_new tidy.toTree makes)
    · exact ⟨_, depth, tidy.unlink list leaf⟩

theorem start_isTidy : Fs.start.IsTidy := by
  obtain ⟨kids, depth, tree⟩ := start_isTree
  refine ⟨kids, depth, tree, fun p => ?_, rfl⟩
  have empty : kids p = [] := by
    cases list : kids p with
    | nil => rfl
    | cons c cs =>
      have path := tree.path p
      rw [list] at path
      exact absurd path.1 (by simp [Fs.start, Fs.zeroed, Fs.init])
  simp [Fs.nameTree, empty]

theorem isTidy_run (run : RamOp.system.Run RamOp.Apart .start s) : s.IsTidy :=
  run.invariant start_isTidy fun _ _ _ tidy apart step => tidy.step apart step

end Steps

/-! ## What a removal does -/

/-- The node is gone, the paths to it lead nowhere, and everything else is as before. -/
structure Removed (s s' : Fs) (c : Idx) : Prop where
  gone : s'.ntypes c = none
  ended : ∀ path, s.resolve path = some (some c) → s'.resolve path = some none
  paths : ∀ path, s.resolve path ≠ some (some c) → s'.resolve path = s.resolve path
  nodes : ∀ i ≠ c, s'.ntypes i = s.ntypes i ∧ s'.sizes i = s.sizes i ∧ s'.datas i = s.datas i

/-- The call answers 0 only where it takes away a node that it may take, and nothing else; where it answers
anything else, nothing changes. -/
structure Respects (mayGo : Fs → Idx → Prop) (call : List UInt8 → VfsM (Option Nat)) (v : Vfs)
    (path : List UInt8) : Prop where
  returns : (call path v).faulted = false
  success : ∀ v', call path v = .ok (some 0) v' → v'.sessions = v.sessions ∧
    ∃ c, v.fs.resolve path = some (some c) ∧ mayGo v.fs c ∧ Removed v.fs v'.fs c
  failure : ∀ v', (call path v).Ends v' → (call path v).value? ≠ some (some 0) → v' = v

def EmptyDirectory (s : Fs) (c : Idx) : Prop :=
  c ≠ rootIdx ∧ s.ntypes c = some .directory ∧ s.firstChild c = none

def RegularFile (s : Fs) (c : Idx) : Prop := s.ntypes c = some .file

section Calls

variable {s : Fs} {v : Vfs} {kids : Idx → List Idx} {depth : Idx → Nat} {p c : Idx} {xs ys : List Idx}
  {path : List UInt8} {refused : VfsM (Option Nat)}

theorem Tree.no_kids_iff (h : Tree s kids depth) : kids c = [] ↔ s.firstChild c = none := by
  rw [(h.path c).start, List.head?_eq_none_iff]

theorem Tidy.removed (h : Tidy s kids depth) (list : kids p = xs ++ c :: ys) (leaf : kids c = []) :
    Removed s (s.unlink p c xs.getLast?) c := by
  have mem : c ∈ kids p := by simp [list]
  have ne : rootIdx ≠ c := by
    rintro rfl
    exact h.not_root p mem
  have walks (path : List UInt8) : (s.unlink p c xs.getLast?).resolve path =
      some (((s.nameTree kids).walk (Fs.components path) rootIdx).filter (· ≠ c)) := by
    rw [(h.unlink list leaf).toTree.resolve_eq, unlink_nameTree h.toTree list,
      NameTree.walk_erase (h.toTree.only mem) h.distinct leaf ne]
  refine ⟨by rw [unlink_ntypes, Function.update_self], fun path found => ?_, fun path other => ?_,
    fun i away => ⟨?_, ?_, ?_⟩⟩
  · rw [h.toTree.resolve_eq] at found
    rw [walks, Option.some.inj found, Option.filter_some_neg (by simp)]
  · rw [h.toTree.resolve_eq] at other ⊢
    rw [walks]
    cases found : (s.nameTree kids).walk (Fs.components path) rootIdx with
    | none => rfl
    | some d =>
      rw [Option.filter_some_pos]
      rw [found] at other
      simpa using other
  · rw [unlink_ntypes, Function.update_of_ne away]
  · cases xs.getLast? <;> exact Function.update_of_ne away _ _
  · rw [unlink_datas, Function.update_of_ne away]

/-- The node of a path other than the root is a child. -/
theorem Tree.resolved_kid (h : Tree s kids depth) (found : s.resolve path = some (some c))
    (ne : c ≠ rootIdx) : ∃ p, c ∈ kids p := by
  rw [h.resolve_eq] at found
  exact (NameTree.walk_mem (Option.some.inj found)).resolve_left ne

theorem removeAt_eq (found : v.fs.resolve path = some (some c)) : Vfs.removeAt path refused v =
    (match v.fs.parentOf c with
      | none => Prog.throw .invalidArgs
      | some parent => do
        if ← Vfs.onFs (Fs.remove parent c) then return some 0 else refused : VfsM (Option Nat)) v := by
  have looked : Vfs.onFs (look (·.resolve path)) v = .ok (some c) v := Prog.zoom_ok (look_some found)
  unfold Vfs.removeAt
  rw [Prog.bind_ok looked]
  exact Prog.bind_ok (Prog.get_apply v)

theorem Tree.parentOf_eq (h : Tree s kids depth) (mem : c ∈ kids p) : s.parentOf c = some p := by
  rw [Fs.parentOf, index?_val]
  exact h.parent p c mem

theorem removeAt_leaf (h : Tree v.fs kids depth) (found : v.fs.resolve path = some (some c))
    (list : kids p = xs ++ c :: ys) (leaf : kids c = []) :
    Vfs.removeAt path refused v = .ok (some 0) { v with fs := v.fs.unlink p c xs.getLast? } := by
  have gone : Vfs.onFs (Fs.remove p c) v = .ok true { v with fs := v.fs.unlink p c xs.getLast? } :=
    Prog.zoom_ok (h.remove_leaf list leaf)
  have mem : c ∈ kids p := by simp [list]
  rw [removeAt_eq found, h.parentOf_eq mem]
  dsimp only
  rw [Prog.bind_ok gone]
  rfl

/-- A leaf goes, or nothing does. -/
theorem Tidy.removeAt_cases (h : Tidy v.fs kids depth) (path : List UInt8) (refused : VfsM (Option Nat)) :
    (∃ e, Vfs.removeAt path refused v = .err e v) ∨ Vfs.removeAt path refused v = refused v ∨
      ∃ p c xs ys, v.fs.resolve path = some (some c) ∧ kids p = xs ++ c :: ys ∧ kids c = [] ∧
        Vfs.removeAt path refused v = .ok (some 0) { v with fs := v.fs.unlink p c xs.getLast? } := by
  obtain ⟨r, found⟩ := Fs.IsTree.resolve_some ⟨kids, depth, h.toTree⟩ path
  cases r with
  | none =>
    have looked : Vfs.onFs (look (·.resolve path)) v = .ok none v := Prog.zoom_ok (look_some found)
    exact .inl ⟨.notFound, by unfold Vfs.removeAt; rw [Prog.bind_ok looked]; rfl⟩
  | some c =>
    by_cases ne : c = rootIdx
    · refine .inl ⟨.invalidArgs, ?_⟩
      have none_above : v.fs.parentOf c = none := by
        rw [Fs.parentOf, index?_val, ne]
        exact h.top
      rw [removeAt_eq found, none_above]
      rfl
    · obtain ⟨p, mem⟩ := h.toTree.resolved_kid found ne
      by_cases leaf : kids c = []
      · obtain ⟨xs, ys, list⟩ := List.append_of_mem mem
        exact .inr (.inr ⟨p, c, xs, ys, found, list, leaf, removeAt_leaf h.toTree found list leaf⟩)
      · have kept : Vfs.onFs (Fs.remove p c) v = .ok false v := Prog.zoom_ok (h.toTree.remove_refused (.inr leaf))
        refine .inr (.inl ?_)
        rw [removeAt_eq found, h.toTree.parentOf_eq mem]
        dsimp only
        rw [Prog.bind_ok kept]
        rfl

/-- A call respects `mayGo` where each leaf that the path can lead to may go. -/
theorem Tidy.respects_iff (h : Tidy v.fs kids depth) {mayGo : Fs → Idx → Prop}
    (refuses : (∃ e, refused v = .err e v) ∨ refused v = .ok none v) :
    Respects mayGo (fun path => Vfs.removeAt path refused) v path ↔
      ∀ c, v.fs.resolve path = some (some c) → c ≠ rootIdx → v.fs.firstChild c = none → mayGo v.fs c := by
  constructor
  · intro respects c found ne no_child
    obtain ⟨p, mem⟩ := h.toTree.resolved_kid found ne
    obtain ⟨xs, ys, list⟩ := List.append_of_mem mem
    obtain ⟨_, d, found', may, _⟩ :=
      respects.success _ (removeAt_leaf h.toTree found list (h.toTree.no_kids_iff.mpr no_child))
    obtain rfl : c = d := Option.some.inj (Option.some.inj (found.symm.trans found'))
    exact may
  · intro all
    have failed (out : (∃ e, Vfs.removeAt path refused v = .err e v) ∨ Vfs.removeAt path refused v = .ok none v) :
        Respects mayGo (fun path => Vfs.removeAt path refused) v path := by
      rcases out with ⟨e, out⟩ | out
      · exact ⟨by rw [out]; rfl, fun v' ok => by simp [out] at ok,
          fun v' ended _ => (out ▸ ended).state_eq.symm⟩
      · exact ⟨by rw [out]; rfl, fun v' ok => by simp [out] at ok,
          fun v' ended _ => (out ▸ ended).state_eq.symm⟩
    rcases h.removeAt_cases path refused with out | out | ⟨p, c, xs, ys, found, list, leaf, out⟩
    · exact failed (.inl out)
    · exact failed (out ▸ refuses)
    · have ne : c ≠ rootIdx := by
        rintro rfl
        exact h.not_root p (by simp [list])
      refine ⟨by rw [out]; rfl, fun v' ok => ?_, fun v' _ other => absurd (by rw [out]; rfl) other⟩
      rw [out] at ok
      cases ok
      exact ⟨rfl, c, found, all c found ne (h.toTree.no_kids_iff.mp leaf), h.removed list leaf⟩

end Calls

/-- In every state that is reached with each new node on a free index and under a name that no sibling has,
`do_rmdir` keeps to empty directories unless the path leads to a file, and `do_unlink` keeps to files unless it
leads to an empty directory other than the root. -/
theorem removals_respect_iff {v : Vfs} (run : RamOp.system.Run RamOp.Apart .start v.fs) (path : List UInt8) :
    (Respects EmptyDirectory Vfs.doRmdir v path ↔
      ¬∃ c, v.fs.resolve path = some (some c) ∧ RegularFile v.fs c) ∧
    (Respects RegularFile Vfs.doUnlink v path ↔
      ¬∃ c, v.fs.resolve path = some (some c) ∧ EmptyDirectory v.fs c) := by
  obtain ⟨kids, depth, tidy⟩ := isTidy_run run
  have rmdir : Respects EmptyDirectory Vfs.doRmdir v path ↔ _ := tidy.respects_iff (.inl ⟨_, rfl⟩)
  have unlink : Respects RegularFile Vfs.doUnlink v path ↔ _ := tidy.respects_iff (.inr rfl)
  have file_leaf {c : Idx} (file : v.fs.ntypes c = some .file) : v.fs.firstChild c = none := by
    refine tidy.toTree.no_kids_iff.mp (by_contra fun some_kid => ?_)
    have dir := tidy.owner c some_kid
    rw [file] at dir
    cases dir
  have not_root {c : Idx} (file : v.fs.ntypes c = some .file) : c ≠ rootIdx := by
    rintro rfl
    have dir := tidy.root_dir
    rw [file] at dir
    cases dir
  -- a node that a path leads to is in use
  have typed {c : Idx} (found : v.fs.resolve path = some (some c)) (ne : c ≠ rootIdx) :
      v.fs.ntypes c = some .file ∨ v.fs.ntypes c = some .directory := by
    obtain ⟨p, mem⟩ := tidy.toTree.resolved_kid found ne
    have live := tidy.live p c mem
    rcases type : v.fs.ntypes c with _ | _ | _
    · exact absurd type live
    · exact .inl rfl
    · exact .inr rfl
  rw [rmdir, unlink]
  refine ⟨⟨?_, ?_⟩, ⟨?_, ?_⟩⟩
  · rintro all ⟨c, found, file⟩
    have dir := (all c found (not_root file) (file_leaf file)).2.1
    rw [file] at dir
    cases dir
  · intro none_file c found ne no_child
    exact ⟨ne, (typed found ne).resolve_left fun file => none_file ⟨c, found, file⟩, no_child⟩
  · rintro all ⟨c, found, ne, dir, no_child⟩
    have file := all c found ne no_child
    rw [RegularFile, dir] at file
    cases file
  · intro none_empty c found ne no_child
    exact (typed found ne).resolve_right fun dir => none_empty ⟨c, found, ne, dir, no_child⟩

/-- A file x, a directory d with a file y, and an empty directory e. -/
def planting : List RamOp :=
  [.tree (.createFile 0 [120]), .write 1 [1, 2, 3] 0, .tree (.mkdirPath [slash, 100]),
    .tree (.createFilePath [100, slash, 121]), .tree (.createDir 0 [101])]

def plantedFs : Vfs := ⟨RamOp.system.after .start planting, fun _ => none⟩

theorem plantedFs_reached : RamOp.system.Run RamOp.Apart .start plantedFs.fs := by
  have follows : RamOp.system.Follows RamOp.Apart .start planting :=
    ⟨by decide +kernel, trivial, by decide +kernel, by decide +kernel, trivial, by decide +kernel,
      by decide +kernel, trivial, by decide +kernel, by decide +kernel, trivial, by decide +kernel,
      by decide +kernel, trivial, by decide +kernel, trivial⟩
  exact Stepper.Run.start.follow follows

theorem removals_respect_iff_planted :
    (Respects EmptyDirectory Vfs.doRmdir plantedFs [120] ↔
      ¬∃ c, plantedFs.fs.resolve [120] = some (some c) ∧ RegularFile plantedFs.fs c) ∧
    (Respects RegularFile Vfs.doUnlink plantedFs [120] ↔
      ¬∃ c, plantedFs.fs.resolve [120] = some (some c) ∧ EmptyDirectory plantedFs.fs c) :=
  removals_respect_iff plantedFs_reached [120]

/-- `do_rmdir` takes the file x, and `do_unlink` the directory e. -/
theorem removals_take_either : ∃ v : Vfs, RamOp.system.Run (fun _ _ => True) .start v.fs ∧
    ¬Respects EmptyDirectory Vfs.doRmdir v [120] ∧ ¬Respects RegularFile Vfs.doUnlink v [101] := by
  refine ⟨plantedFs, plantedFs_reached.mono fun _ _ _ => trivial, fun respects => ?_, fun respects => ?_⟩
  · have gone : (Vfs.doRmdir [120] plantedFs).value? = some (some 0) := by decide +kernel
    obtain ⟨_, c, found, ⟨_, dir, _⟩, _⟩ := respects.success _ (Outcome.eq_ok_of_value? gone)
    have at_x : plantedFs.fs.resolve [120] = some (some ⟨1, by decide⟩) := by decide +kernel
    have file : plantedFs.fs.ntypes ⟨1, by decide⟩ = some .file := by decide +kernel
    obtain rfl := Option.some.inj (Option.some.inj (at_x.symm.trans found))
    exact absurd (file.symm.trans dir) (by decide)
  · have gone : (Vfs.doUnlink [101] plantedFs).value? = some (some 0) := by decide +kernel
    obtain ⟨_, c, found, file, _⟩ := respects.success _ (Outcome.eq_ok_of_value? gone)
    have at_e : plantedFs.fs.resolve [101] = some (some ⟨4, by decide⟩) := by decide +kernel
    have dir : plantedFs.fs.ntypes ⟨4, by decide⟩ = some .directory := by decide +kernel
    obtain rfl := Option.some.inj (Option.some.inj (at_e.symm.trans found))
    exact absurd (file.symm.trans dir) (by decide)

end CapsuleOS.Fileagent
