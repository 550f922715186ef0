import CapsuleOS.Fileagent.Tree
import CapsuleOS.Lib.Total

/-!
# Runs on the tree

The calls keep the tree while every new node gets an index that is not in use. `FsOp.adds` says how many
nodes a call is going to make.
-/
namespace CapsuleOS.Fileagent

open Lib

namespace Fs

/-- Whether `create` makes a node. -/
def createAdds (s : Fs) (parent : Int) (name : List UInt8) : Nat :=
  match index? parent with
  | none => 0
  | some p => if s.ntypes p = some .directory ∧ s.childNamed p name = some none then 1 else 0

/-- The components from the first one that is not found. -/
def mkdirAdds (s : Fs) : List (List UInt8) → Idx → Nat
  | [], _ => 0
  | c :: cs, cur =>
    match s.childNamed cur c with
    | some (some found) => if s.ntypes found = some .directory then s.mkdirAdds cs found else 0
    | some none => cs.length + 1
    | none => 0

end Fs

namespace FsOp

def adds (s : Fs) : FsOp → Nat
  | .createFile parent name => s.createAdds parent name
  | .createDir parent name => s.createAdds parent name
  | .mkdirPath path => s.root.elim 0 (s.mkdirAdds (Fs.components (Fs.clean path)))
  | .createFilePath path =>
    match s.fileTarget path with
    | some (some (parent, name)) => s.createAdds parent name
    | _ => 0
  | .remove _ _ => 0

/-- The nodes that the call makes get indices that are not in use. -/
def Meets (s : Fs) (op : FsOp) : Prop := s.Fresh (op.adds s)

end FsOp

/-- The calls that make nodes keep the tree and the nodes that are there. -/
def Kept (s s' : Fs) : Prop := s'.IsTree ∧ Grows s s'

section Creation

variable {s : Fs} {kids : Idx → List Idx} {depth : Idx → Nat} {p cur : Idx} {name : List UInt8}
  {ntype : NodeType}

theorem Kept.refl (h : s.IsTree) : Kept s s := ⟨h, .refl s⟩

theorem Kept.trans {s' s'' : Fs} (h : Kept s s') (h' : Kept s' s'') : Kept s s'' :=
  ⟨h'.1, h.2.trans h'.2⟩

theorem look_post {α : Type} {f : Fs → Option α} {Q : α → Fs → Prop} {E : Fs → Prop} (stop : E s)
    (found : ∀ a, f s = some a → Q a s) : Prog.Post (look f) s Q E := by
  cases eq : f s with
  | some a =>
    have run : look f s = .ok a s := by simp only [look, eq]
    exact .of_ok ⟨a, s, run, found a eq⟩
  | none =>
    have run : look f s = .fault s := by simp only [look, eq]
    exact .of_fault run stop

theorem look_some {α : Type} {f : Fs → Option α} {a : α} (found : f s = some a) : look f s = .ok a s := by
  simp only [look, found]

theorem look_total {α : Type} {f : Fs → Option α} {Q : α → Fs → Prop} {E : Fs → Prop} {a : α}
    (found : f s = some a) (holds : Q a s) : Prog.Total (look f) s Q E :=
  .of_ok ⟨a, s, look_some found, holds⟩

/-- In a tree every search ends. -/
theorem Tree.resolveFrom_some (h : Tree s kids depth) (cs : List (List UInt8)) (cur : Idx) :
    ∃ r, s.resolveFrom cs cur = some r := by
  induction cs generalizing cur with
  | nil => exact ⟨_, rfl⟩
  | cons c cs ih =>
    simp only [Fs.resolveFrom, h.childNamed cur c, Option.bind_eq_bind, Option.bind_some]
    cases (kids cur).find? (s.names · = c) with
    | none => exact ⟨_, rfl⟩
    | some found => exact ih found

theorem Fs.IsTree.resolve_some (h : s.IsTree) (path : List UInt8) : ∃ r, s.resolve path = some r := by
  obtain ⟨kids, depth, tree⟩ := h
  unfold Fs.resolve
  split_ifs
  · exact ⟨_, rfl⟩
  · rw [tree.root_eq]
    exact tree.resolveFrom_some _ _

theorem Fs.IsTree.fileTarget_some (h : s.IsTree) (path : List UInt8) : ∃ r, s.fileTarget path = some r := by
  obtain ⟨r, resolved⟩ := h.resolve_some (Fs.splitLast (Fs.clean path)).1
  simp only [Fs.fileTarget, resolved, Option.bind_eq_bind, Option.bind_some]
  split_ifs
  · exact ⟨_, rfl⟩
  · cases r <;> exact ⟨_, rfl⟩
  · exact ⟨_, rfl⟩

theorem create_total (h : s.IsTree) {parent : Int} (fresh : s.Fresh (s.createAdds parent name)) :
    Prog.Total (Fs.create ntype parent name) s (fun _ s' => Kept s s') (fun s' => Kept s s') := by
  unfold Fs.createAdds at fresh
  cases index : index? parent with
  | none =>
    simp only [Fs.create, index]
    exact .pure (.refl h)
  | some p =>
    simp only [Fs.create, index] at fresh ⊢
    refine Prog.Total.get_bind ?_
    by_cases dir : s.ntypes p = some .directory
    · simp only [dir, ne_eq, not_true_eq_false, if_false]
      obtain ⟨kids, depth, tree⟩ := id h
      have searched : s.findChild parent name = some ((kids p).find? (s.names · = name)) := by
        simpa only [Fs.findChild, index] using tree.childNamed p name
      refine .congr (Prog.bind_ok (look_some searched)) ?_
      cases found : (kids p).find? (s.names · = name) with
      | some c => exact .pure (.refl h)
      | none =>
        rw [if_pos ⟨dir, by rw [tree.childNamed, found]⟩] at fresh
        rcases tree.setNode dir fresh with run | ⟨idx, s', run, ⟨kids', depth', tree', _⟩, _, _, grows⟩
        · exact .of_ok ⟨_, _, run, .refl h⟩
        · exact .of_ok ⟨_, _, run, ⟨kids', depth', tree'⟩, grows⟩
    · rw [if_pos dir]
      exact .pure (.refl h)

/-- A missing component is made, and the rest of the path goes on below it. -/
theorem mkdirLoop_missing {c : List UInt8} {cs : List (List UInt8)} (h : Tree s kids depth)
    (dir : s.ntypes cur = some .directory) (missing : s.childNamed cur c = some none) (fresh : s.Fresh (cs.length + 1))
    (below : ∀ {idx s' kids' depth'}, Tree s' kids' depth' → kids' idx = [] → s'.ntypes idx = some .directory →
      s'.Fresh cs.length →
        Prog.Total (Fs.mkdirLoop cs idx) s' (fun _ s'' => Kept s' s'') (fun s'' => Kept s' s'')) :
    Prog.Total (Fs.mkdirLoop (c :: cs) cur) s (fun _ s' => Kept s s') (fun s' => Kept s s') := by
  refine .congr (Prog.bind_ok (look_some missing)) ?_
  rcases h.setNode dir fresh with run | ⟨idx, s', run, ⟨kids', depth', tree', empty'⟩, dir', fresh', grows⟩
  · refine .congr (Prog.bind_ok ((create_eq dir missing).trans run)) ?_
    exact .throw (.refl ⟨kids, depth, h⟩)
  · refine .congr (Prog.bind_ok ((create_eq dir missing).trans run)) ?_
    have here : Kept s s' := ⟨⟨kids', depth', tree'⟩, grows⟩
    exact (below tree' empty' dir' fresh').mono (fun _ _ later => here.trans later) fun _ later => here.trans later

/-- In a directory without children all of the path is new. -/
theorem mkdirLoop_new {cs : List (List UInt8)} (h : Tree s kids depth) (empty : kids cur = [])
    (dir : s.ntypes cur = some .directory) (fresh : s.Fresh cs.length) :
    Prog.Total (Fs.mkdirLoop cs cur) s (fun _ s' => Kept s s') (fun s' => Kept s s') := by
  induction cs generalizing s kids depth cur with
  | nil => exact .pure (.refl ⟨kids, depth, h⟩)
  | cons c cs ih =>
    have missing : s.childNamed cur c = some none := by
      rw [h.childNamed, empty]
      rfl
    exact mkdirLoop_missing h dir missing fresh ih

/-- The search goes on from directory to directory until a component is missing. -/
theorem mkdirLoop_total {cs : List (List UInt8)} (h : Tree s kids depth)
    (dir : s.ntypes cur = some .directory) (fresh : s.Fresh (s.mkdirAdds cs cur)) :
    Prog.Total (Fs.mkdirLoop cs cur) s (fun _ s' => Kept s s') (fun s' => Kept s s') := by
  have same : Kept s s := .refl ⟨kids, depth, h⟩
  induction cs generalizing cur with
  | nil => exact .pure same
  | cons c cs ih =>
    have searched := h.childNamed cur c
    cases found : (kids cur).find? (s.names · = c) with
    | some next =>
      rw [found] at searched
      refine .congr (Prog.bind_ok (look_some searched)) ?_
      by_cases last : cs = []
      · simp only [last, if_true]
        exact .throw same
      · simp only [last, if_false]
        refine .get_bind ?_
        by_cases below : s.ntypes next = some .directory
        · simp only [Fs.mkdirAdds, searched, below, if_true] at fresh
          simpa only [below, ne_eq, not_true_eq_false, if_false] using ih below fresh
        · simp only [below, ne_eq, not_false_eq_true, if_true]
          exact .throw same
    | none =>
      rw [found] at searched
      simp only [Fs.mkdirAdds, searched] at fresh
      exact mkdirLoop_missing h dir searched fresh mkdirLoop_new

theorem mkdirPath_total (h : s.IsTree) {path : List UInt8} (fresh : s.Fresh ((FsOp.mkdirPath path).adds s)) :
    Prog.Total (Fs.mkdirPath path) s (fun _ s' => Kept s s') (fun s' => Kept s s') := by
  unfold Fs.mkdirPath
  by_cases nothing : Fs.clean path = []
  · rw [if_pos nothing]
    exact .pure (.refl h)
  · rw [if_neg nothing]
    refine .get_bind ?_
    obtain ⟨kids, depth, tree⟩ := h
    simp only [FsOp.adds, tree.root_eq, Option.elim_some] at fresh ⊢
    exact mkdirLoop_total tree tree.root_dir fresh

theorem createFilePath_total (h : s.IsTree) {path : List UInt8}
    (fresh : s.Fresh ((FsOp.createFilePath path).adds s)) :
    Prog.Total (Fs.createFilePath path) s (fun _ s' => Kept s s') (fun s' => Kept s s') := by
  obtain ⟨target, found⟩ := h.fileTarget_some path
  refine .congr (Prog.bind_ok (look_some found)) ?_
  simp only [FsOp.adds, found] at fresh
  cases target with
  | none => exact .pure (.refl h)
  | some target => exact create_total h fresh

end Creation

/-! ## Removal -/

section Removal

variable {s : Fs} {kids : Idx → List Idx} {depth : Idx → Nat} {p c : Idx} {xs ys : List Idx}
  {l prev : Option Idx}

theorem unlinkLoop_missing (h : Links.Path s.nextSibling l xs none) (away : c ∉ xs) {rounds : Nat}
    (enough : xs.length ≤ rounds) : Fs.unlinkLoop p c rounds prev l s = .ok false s := by
  induction xs generalizing l prev rounds with
  | nil =>
    obtain rfl : l = none := h
    cases rounds <;> rfl
  | cons x xs ih =>
    obtain ⟨rfl, rest⟩ := h
    obtain ⟨rounds, rfl⟩ : ∃ n, rounds = n + 1 := ⟨rounds - 1, by simp at enough; omega⟩
    have ne : x ≠ c := fun eq => away (by simp [eq])
    simp only [Fs.unlinkLoop, ne, if_false, Prog.bind_apply, Prog.get]
    exact ih rest (fun mem => away (List.mem_cons_of_mem _ mem)) (by simpa using enough)

theorem unlinkLoop_found (h : Links.Path s.nextSibling l (xs ++ c :: ys) none) (away : c ∉ xs)
    {rounds : Nat} (enough : xs.length < rounds) :
    Fs.unlinkLoop p c rounds prev l s = .ok true (s.unlink p c (xs.getLast?.or prev)) := by
  induction xs generalizing l prev rounds with
  | nil =>
    obtain ⟨rfl, _⟩ := h
    obtain ⟨rounds, rfl⟩ : ∃ n, rounds = n + 1 := ⟨rounds - 1, by simp at enough; omega⟩
    simp only [Fs.unlinkLoop, if_true]
    rfl
  | cons x xs ih =>
    obtain ⟨rfl, rest⟩ := h
    obtain ⟨rounds, rfl⟩ : ∃ n, rounds = n + 1 := ⟨rounds - 1, by simp at enough; omega⟩
    have ne : x ≠ c := fun eq => away (by simp [eq])
    simp only [Fs.unlinkLoop, ne, if_false, Prog.bind_apply, Prog.get]
    rw [ih rest (fun mem => away (List.mem_cons_of_mem _ mem)) (by simpa using enough),
      List.getLast?_cons]
    cases xs.getLast? <;> rfl

@[simp] theorem unlink_root : (s.unlink p c prev).root = s.root := by cases prev <;> rfl

@[simp] theorem unlink_nextIdx : (s.unlink p c prev).nextIdx = s.nextIdx := by cases prev <;> rfl

@[simp] theorem unlink_births : (s.unlink p c prev).births = s.births := by cases prev <;> rfl

@[simp] theorem unlink_ntypes : (s.unlink p c prev).ntypes = Function.update s.ntypes c none := by
  cases prev <;> rfl

@[simp] theorem unlink_parents : (s.unlink p c prev).parents = Function.update s.parents c none := by
  cases prev <;> rfl

@[simp] theorem unlink_counts : (s.unlink p c prev).childCounts =
    Function.update (Function.update s.childCounts p ((s.childCounts p + 255) % 256)) c 0 := by
  cases prev <;> rfl

/-- The siblings without the node. -/
theorem Tree.unlink_path (h : Tree s kids depth) (list : kids p = xs ++ c :: ys) (ne : p ≠ c) :
    Links.Path (s.unlink p c xs.getLast?).nextSibling ((s.unlink p c xs.getLast?).firstChild p)
      (xs ++ ys) none := by
  have path := h.path p
  have nodup := h.nodup p
  rw [list] at path nodup
  have away : c ∉ xs ++ ys := (List.nodup_middle.mp nodup).notMem
  rcases List.eq_nil_or_concat xs with rfl | ⟨ks, k, rfl⟩
  · simp only [List.getLast?_nil, Fs.unlink, Fs.setFirst, Fs.setCount, Function.update_of_ne ne,
      Function.update_self]
    exact path.2.update away none
  · rw [List.concat_eq_append] at path nodup away ⊢
    simp only [List.getLast?_concat, Fs.unlink, Fs.setNext, Fs.setCount, Function.update_of_ne ne]
    exact (path.unlink nodup).update away none

/-- The siblings elsewhere. -/
theorem Tree.unlink_path_of_ne (h : Tree s kids depth) (list : kids p = xs ++ c :: ys)
    (leaf : kids c = []) {q : Idx} (ne : q ≠ p) :
    Links.Path (s.unlink p c xs.getLast?).nextSibling ((s.unlink p c xs.getLast?).firstChild q)
      (kids q) none := by
  by_cases removed : q = c
  · subst removed
    rw [leaf]
    cases xs.getLast? <;> exact Function.update_self _ _ _
  · -- the nodes whose links change are children of `p`
    have other : ∀ k ∈ kids p, k ∉ kids q := fun k mem mem' =>
      ne (Option.some.inj ((h.parent q k mem').symm.trans (h.parent p k mem)))
    have away := other c (by simp [list])
    cases last : xs.getLast? with
    | none =>
      simp only [Fs.unlink, Fs.setFirst, Fs.setCount, Function.update_of_ne removed,
        Function.update_of_ne ne]
      exact (h.path q).update away none
    | some k =>
      have k_away := other k (by simp [list, List.mem_of_getLast? last])
      simp only [Fs.unlink, Fs.setNext, Fs.setCount, Function.update_of_ne removed]
      exact ((h.path q).update k_away _).update away none

theorem Tree.unlink (h : Tree s kids depth) (list : kids p = xs ++ c :: ys) (leaf : kids c = []) :
    Tree (s.unlink p c xs.getLast?) (Function.update kids p (xs ++ ys)) depth := by
  have mem_c : c ∈ kids p := by simp [list]
  have ne : p ≠ c := by
    rintro rfl
    exact absurd (h.deeper p p mem_c) (lt_irrefl _)
  have ne_root : c ≠ rootIdx := by
    rintro rfl
    exact h.not_root p mem_c
  have nodup := h.nodup p
  rw [list] at nodup
  obtain ⟨away, nodup⟩ := List.nodup_cons.mp (List.nodup_middle.mp nodup)
  -- the children of a node are old children other than the removed one
  have member : ∀ q, ∀ d ∈ Function.update kids p (xs ++ ys) q, d ∈ kids q ∧ d ≠ c := by
    intro q d mem
    by_cases here : q = p
    · subst here
      rw [Function.update_self] at mem
      refine ⟨?_, fun eq => away (eq ▸ mem)⟩
      rw [list]
      simp only [List.mem_append, List.mem_cons] at mem ⊢
      tauto
    · rw [Function.update_of_ne here] at mem
      refine ⟨mem, fun eq => here ?_⟩
      have mine := h.parent q d mem
      rw [eq, h.parent p c mem_c] at mine
      exact (Option.some.inj mine).symm
  refine ⟨?_, ?_, ?_, fun q => ?_, fun q => ?_, fun q mem => ?_, fun q d mem => ?_, fun q d mem => ?_,
    fun q some_kid => ?_, fun d not_root live => ?_, fun q => ?_, fun q d mem => ?_⟩
  · rw [unlink_root]
    exact h.root_eq
  · rw [unlink_ntypes, Function.update_of_ne ne_root.symm]
    exact h.root_dir
  · rw [unlink_nextIdx]
    exact h.next_pos
  · by_cases here : q = p
    · subst here
      rw [Function.update_self]
      exact h.unlink_path list ne
    · rw [Function.update_of_ne here]
      exact h.unlink_path_of_ne list leaf here
  · by_cases here : q = p
    · subst here
      rwa [Function.update_self]
    · rw [Function.update_of_ne here]
      exact h.nodup q
  · exact h.not_root q (member q _ mem).1
  · rw [unlink_ntypes, Function.update_of_ne (member q d mem).2]
    exact h.live q d (member q d mem).1
  · rw [unlink_parents, Function.update_of_ne (member q d mem).2]
    exact h.parent q d (member q d mem).1
  · obtain ⟨d, mem⟩ := List.exists_mem_of_ne_nil _ some_kid
    have old := (member q d mem).1
    rw [unlink_ntypes, Function.update_of_ne]
    · exact h.owner q (List.ne_nil_of_mem old)
    · rintro rfl
      rw [leaf] at old
      cases old
  · rw [unlink_ntypes] at live
    have kept : d ≠ c := by
      rintro rfl
      exact live (Function.update_self _ _ _)
    rw [Function.update_of_ne kept] at live
    obtain ⟨q, mem⟩ := h.covers d not_root live
    refine ⟨q, ?_⟩
    by_cases here : q = p
    · subst here
      rw [Function.update_self]
      rw [list] at mem
      simp only [List.mem_append, List.mem_cons] at mem ⊢
      tauto
    · rwa [Function.update_of_ne here]
  · rw [unlink_counts]
    by_cases removed : q = c
    · subst removed
      rw [Function.update_self, Function.update_of_ne ne.symm, leaf, List.length_nil]
    · rw [Function.update_of_ne removed]
      by_cases here : q = p
      · subst here
        have bound := h.length_le q
        unfold maxFiles at bound
        rw [Function.update_self, Function.update_self, h.count q, list]
        rw [list] at bound
        simp only [List.length_append, List.length_cons] at bound ⊢
        omega
      · rw [Function.update_of_ne here, Function.update_of_ne here, h.count q]
  · exact h.deeper q d (member q d mem).1

theorem Tree.remove_refused (h : Tree s kids depth) (kept : c ∉ kids p ∨ kids c ≠ []) :
    Fs.remove p.val c.val s = .ok false s := by
  simp only [Fs.remove, index?_val, Prog.bind_apply, Prog.get]
  by_cases full : s.ntypes c = some .directory ∧ s.childCounts c > 0
  · rw [if_pos full]
    rfl
  · rw [if_neg full]
    have leaf : kids c = [] := by
      by_contra some_kid
      refine full ⟨h.owner c some_kid, ?_⟩
      rw [h.count c]
      exact List.length_pos_iff.mpr some_kid
    split_ifs
    · rfl
    · exact unlinkLoop_missing (h.path p) (kept.resolve_right (not_not.mpr leaf)) (h.length_le p).le

theorem Tree.remove_leaf (h : Tree s kids depth) (list : kids p = xs ++ c :: ys) (leaf : kids c = []) :
    Fs.remove p.val c.val s = .ok true (s.unlink p c xs.getLast?) := by
  have mem : c ∈ kids p := by simp [list]
  have path := h.path p
  have nodup := h.nodup p
  have bound := h.length_le p
  rw [list] at path nodup bound
  have away : c ∉ xs := fun here => List.disjoint_of_nodup_append nodup here List.mem_cons_self
  have enough : xs.length < maxFiles := by
    simp at bound
    omega
  have none_below : s.childCounts c = 0 := by rw [h.count c, leaf, List.length_nil]
  have run : Fs.unlinkLoop p c maxFiles none (s.firstChild p) s = _ := unlinkLoop_found path away enough
  rw [Option.or_none] at run
  simp only [Fs.remove, index?_val, Prog.bind_apply, Prog.get, none_below, gt_iff_lt, lt_irrefl, and_false,
    if_false, h.live p c mem]
  exact run

/-- A removal takes a leaf out, or it does nothing. -/
theorem Tree.remove_cases (h : Tree s kids depth) (parent child : Int) :
    Fs.remove parent child s = .ok false s ∨ ∃ p c xs ys, kids p = xs ++ c :: ys ∧ kids c = [] ∧
      Fs.remove parent child s = .ok true (s.unlink p c xs.getLast?) := by
  cases at_p : index? parent with
  | none => exact .inl (by simp only [Fs.remove, at_p]; rfl)
  | some p =>
    cases at_c : index? child with
    | none => exact .inl (by simp only [Fs.remove, at_p, at_c]; rfl)
    | some c =>
      rw [index?_eq at_p, index?_eq at_c]
      by_cases leaf : c ∈ kids p ∧ kids c = []
      · obtain ⟨xs, ys, list⟩ := List.append_of_mem leaf.1
        exact .inr ⟨p, c, xs, ys, list, leaf.2, h.remove_leaf list leaf.2⟩
      · exact .inl (h.remove_refused (by tauto))

theorem remove_total (h : s.IsTree) {parent child : Int} :
    Prog.Total (Fs.remove parent child) s (fun _ s' => s'.IsTree ∧ s'.births = s.births)
      (fun s' => s'.IsTree ∧ s'.births = s.births) := by
  obtain ⟨kids, depth, tree⟩ := h
  rcases tree.remove_cases parent child with refused | ⟨p, c, xs, ys, list, leaf, gone⟩
  · exact .of_ok ⟨_, _, refused, ⟨kids, depth, tree⟩, rfl⟩
  · exact .of_ok ⟨_, _, gone, ⟨_, depth, tree.unlink list leaf⟩, unlink_births⟩

end Removal

/-! ## Runs -/

/-- No node in use is overwritten. -/
def NoReuse (s s' : Fs) : Prop :=
  ∀ i, (s.used i = true → s'.births i = s.births i) ∧ s'.births i ≤ s.births i + 1

theorem Grows.noReuse {s s' : Fs} (h : Grows s s') : NoReuse s s' := by
  refine fun i => ⟨fun used => (h.old i used).2, ?_⟩
  cases used : s.used i with
  | true => exact (h.old i used).2 ▸ Nat.le_succ _
  | false =>
    rw [h.new i used]
    split_ifs <;> omega

theorem Fs.IsTree.step {s : Fs} (h : s.IsTree) {op : FsOp} (meets : op.Meets s) :
    Prog.Post op.perform s (fun _ s' => s'.IsTree ∧ NoReuse s s') (fun s' => s'.IsTree ∧ NoReuse s s') := by
  have made {α : Type} {m : FsM α} (post : Prog.Post m s (fun _ s' => Kept s s') (fun s' => Kept s s')) :
      Prog.Post m s (fun _ s' => s'.IsTree ∧ NoReuse s s') (fun s' => s'.IsTree ∧ NoReuse s s') :=
    post.mono (fun _ _ kept => ⟨kept.1, kept.2.noReuse⟩) fun _ kept => ⟨kept.1, kept.2.noReuse⟩
  cases op with
  | createFile parent name => exact (made (create_total h meets).post).bind fun _ _ kept => .pure kept
  | createDir parent name => exact (made (create_total h meets).post).bind fun _ _ kept => .pure kept
  | mkdirPath path => exact made (mkdirPath_total h meets).post
  | createFilePath path => exact (made (createFilePath_total h meets).post).bind fun _ _ kept => .pure kept
  | remove parent child =>
    have kept {s' : Fs} (same : s'.IsTree ∧ s'.births = s.births) : s'.IsTree ∧ NoReuse s s' :=
      ⟨same.1, fun i => by simp [same.2]⟩
    exact ((remove_total h).post.mono (fun _ _ => kept) fun _ => kept).bind fun _ _ done => .pure done

/-- Node 0 is the only one in use, and it has no children. -/
theorem start_isTree : Fs.start.IsTree := by
  have only : ∀ c ≠ rootIdx, Fs.start.ntypes c = none := fun c ne => Function.update_of_ne ne _ _
  exact ⟨fun _ => [], fun _ => 0,
    { root_eq := rfl
      root_dir := rfl
      next_pos := le_rfl
      path := fun _ => rfl
      nodup := fun _ => List.nodup_nil
      not_root := fun _ => List.not_mem_nil
      live := fun _ _ mem => absurd mem List.not_mem_nil
      parent := fun _ _ mem => absurd mem List.not_mem_nil
      owner := fun _ some_kid => absurd rfl some_kid
      covers := fun c ne live => absurd (only c ne) live
      count := fun _ => rfl
      deeper := fun _ _ mem => absurd mem List.not_mem_nil }⟩

theorem isTree_run {s : Fs} (run : FsOp.system.Run (fun s op => op.Meets s) .start s) : s.IsTree :=
  run.invariant start_isTree fun _ _ _ tree meets step => (step.ran.state_eq ▸ (tree.step meets).state).1

/-- The nodes in use are one tree: the siblings of every node are finitely many nodes in use, their
number is recorded, every node in use but the root is once among the siblings below its parent and
nowhere else, and the parents lead to the root. -/
structure OneTree (s : Fs) (kids : Idx → List Idx) : Prop where
  root : s.ntypes rootIdx = some .directory
  siblings : ∀ p, Links.Path s.nextSibling (s.firstChild p) (kids p) none
  live : ∀ p, ∀ c ∈ kids p, s.ntypes c ≠ none
  count : ∀ p, s.childCounts p = (kids p).length
  placed : ∀ c ≠ rootIdx, s.ntypes c ≠ none → ∃ p, s.parents c = some p ∧
    s.ntypes p = some .directory ∧ (kids p).count c = 1 ∧ ∀ q ≠ p, c ∉ kids q
  not_root : ∀ p, rootIdx ∉ kids p
  rooted : ∀ c, s.ntypes c ≠ none →
    Relation.ReflTransGen (fun c p => s.parents c = some p) c rootIdx

theorem Tree.oneTree {s : Fs} {kids : Idx → List Idx} {depth : Idx → Nat} (h : Tree s kids depth) :
    OneTree s kids where
  root := h.root_dir
  siblings := h.path
  live := h.live
  count := h.count
  not_root := h.not_root
  placed c ne live := by
    obtain ⟨p, mem⟩ := h.covers c ne live
    refine ⟨p, h.parent p c mem, h.owner p (List.ne_nil_of_mem mem),
      List.count_eq_one_of_mem (h.nodup p) mem, fun q other mem' => other ?_⟩
    exact Option.some.inj ((h.parent q c mem').symm.trans (h.parent p c mem))
  rooted := by
    -- the parent of a node is less deep
    have up : ∀ n c, depth c ≤ n → s.ntypes c ≠ none →
        Relation.ReflTransGen (fun c p => s.parents c = some p) c rootIdx := by
      intro n
      induction n with
      | zero =>
        intro c bound live
        by_cases ne : c = rootIdx
        · exact ne ▸ .refl
        · obtain ⟨p, mem⟩ := h.covers c ne live
          have less := h.deeper p c mem
          omega
      | succ n ih =>
        intro c bound live
        by_cases ne : c = rootIdx
        · exact ne ▸ .refl
        · obtain ⟨p, mem⟩ := h.covers c ne live
          have less := h.deeper p c mem
          have dir := h.owner p (List.ne_nil_of_mem mem)
          exact .head (h.parent p c mem) (ih p (by omega) (by simp [dir]))
    exact fun c live => up (depth c) c le_rfl live

/-- After any calls that find the index of each new node free, the nodes are one tree, and the next such
call does not overwrite a node. -/
theorem ramfs_tree {s : Fs} (run : FsOp.system.Run (fun s op => op.Meets s) .start s) :
    (∃ kids, OneTree s kids) ∧
      ∀ op s', FsOp.Meets s op → FsOp.system.Steps op s s' → NoReuse s s' := by
  obtain ⟨kids, depth, tree⟩ := isTree_run run
  refine ⟨⟨kids, tree.oneTree⟩, fun op s' meets step => ?_⟩
  have stepped := (Fs.IsTree.step ⟨kids, depth, tree⟩ meets).state
  exact (step.ran.state_eq ▸ stepped : s'.IsTree ∧ NoReuse s s').2

/-- A file x and a chain of 14 directories take all nodes. Then y takes the place of x. -/
def fillUp : List FsOp :=
  [.createFile 0 [120], .mkdirPath ((List.replicate 13 [97, slash]).flatten ++ [97]), .remove 0 1,
    .createFile 0 [121]]

theorem ramfs_tree_fillUp : (∃ kids, OneTree (FsOp.system.after .start fillUp) kids) ∧
    ∀ op s', FsOp.Meets (FsOp.system.after .start fillUp) op →
      FsOp.system.Steps op (FsOp.system.after .start fillUp) s' →
        NoReuse (FsOp.system.after .start fillUp) s' := by
  refine ramfs_tree (Stepper.Run.start.follow ⟨?_, trivial, ?_, ?_, trivial, ?_, ?_, trivial, ?_, ?_,
    trivial, ?_, trivial⟩)
  all_goals
    try unfold FsOp.Meets Fs.Fresh
    decide +kernel

/-- Another file then takes the place of the first directory. -/
def wrapped : List FsOp :=
  [.createFile 0 [120], .mkdirPath ((List.replicate 13 [97, slash]).flatten ++ [97]), .remove 0 1,
    .createFile 0 [121], .createFile 0 [122]]

/-- The overwritten directory becomes its own sibling. -/
theorem wrapped_circle : ∃ s, FsOp.system.Run (fun _ _ => True) .start s ∧ ¬∃ kids, OneTree s kids := by
  have follows : FsOp.system.Follows (fun _ _ => True) .start wrapped :=
    ⟨trivial, trivial, by decide +kernel, trivial, trivial, by decide +kernel, trivial, trivial,
      by decide +kernel, trivial, trivial, by decide +kernel, trivial, trivial, by decide +kernel, trivial⟩
  refine ⟨_, Stepper.Run.start.follow follows, fun ⟨kids, tree⟩ => ?_⟩
  have first : (FsOp.system.after .start wrapped).firstChild rootIdx = some ⟨2, by decide⟩ := by
    decide +kernel
  have circle : (FsOp.system.after .start wrapped).nextSibling ⟨2, by decide⟩ = some ⟨2, by decide⟩ := by
    decide +kernel
  have path := tree.siblings rootIdx
  rw [first] at path
  exact path.no_circle circle

end CapsuleOS.Fileagent
