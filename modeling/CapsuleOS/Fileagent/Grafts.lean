import CapsuleOS.Fileagent.Paths

/-!
# What creation does to the tree

A call makes no node, or a chain of them: the first below a node that is there, each other one below the
one before (`Grafted`). `FsOp.place` says where the chain begins and which names it is to have. It stops
early when there is no free node left, and then `mkdir_path` leaves what it has made.
-/
namespace CapsuleOS.Fileagent

open Lib

namespace Fs

/-- The nodes that are not in use, other than the root. -/
def freeNodes (s : Fs) : Nat := (Finset.univ.filter fun i => i ≠ rootIdx ∧ s.ntypes i = none).card

/-- Where `create` makes a node. -/
def createPlace (s : Fs) (parent : Int) (name : List UInt8) : Option (Idx × List (List UInt8)) :=
  match index? parent with
  | none => none
  | some p => if s.ntypes p = some .directory ∧ s.childNamed p name = some none then some (p, [name]) else none

/-- The directory that lacks a component, and the components from there. -/
def mkdirPlace (s : Fs) : List (List UInt8) → Idx → Option (Idx × List (List UInt8))
  | [], _ => none
  | c :: cs, cur =>
    match s.childNamed cur c with
    | some (some found) => if s.ntypes found = some .directory then s.mkdirPlace cs found else none
    | some none => some (cur, c :: cs)
    | none => none

theorem createAdds_eq (s : Fs) (parent : Int) (name : List UInt8) :
    s.createAdds parent name = ((s.createPlace parent name).map (·.2.length)).getD 0 := by
  unfold createAdds createPlace
  cases index? parent with
  | none => rfl
  | some p =>
    dsimp only
    split_ifs <;> rfl

theorem mkdirAdds_eq (s : Fs) (cs : List (List UInt8)) (cur : Idx) :
    s.mkdirAdds cs cur = ((s.mkdirPlace cs cur).map (·.2.length)).getD 0 := by
  induction cs generalizing cur with
  | nil => rfl
  | cons c cs ih =>
    unfold mkdirAdds mkdirPlace
    rcases s.childNamed cur c with _ | _ | found
    · rfl
    · rfl
    · dsimp only
      split_ifs
      · exact ih found
      · rfl

end Fs

namespace FsOp

/-- The node below which the call makes nodes, and their names. -/
def place (s : Fs) : FsOp → Option (Idx × List (List UInt8))
  | .createFile parent name => s.createPlace parent name
  | .createDir parent name => s.createPlace parent name
  | .mkdirPath path => s.root.bind (s.mkdirPlace (Fs.components (Fs.clean path)))
  | .createFilePath path =>
    match s.fileTarget path with
    | some (some (parent, name)) => s.createPlace parent name
    | _ => none
  | .remove _ _ => none

theorem adds_eq (s : Fs) (op : FsOp) : op.adds s = ((op.place s).map (·.2.length)).getD 0 := by
  cases op with
  | createFile parent name => exact s.createAdds_eq parent name
  | createDir parent name => exact s.createAdds_eq parent name
  | mkdirPath path =>
    unfold adds place
    cases s.root with
    | none => rfl
    | some root => exact s.mkdirAdds_eq _ root
  | createFilePath path =>
    simp only [adds, place]
    rcases s.fileTarget path with _ | _ | ⟨parent, name⟩
    · rfl
    · rfl
    · exact s.createAdds_eq parent name
  | remove parent child => rfl

/-- The place with the names that there are free nodes for. -/
def makes (s : Fs) (op : FsOp) : Option (Idx × List (List UInt8)) :=
  (op.place s).map fun at_p => (at_p.1, at_p.2.take s.freeNodes)

/-- New nodes get free indices, and the first one's name, as it is stored, is not a sibling's. -/
structure Apart (s : Fs) (op : FsOp) : Prop where
  meets : op.Meets s
  new : ∀ at_p ∈ op.makes s, ∀ name ∈ at_p.2.head?,
    s.childNamed at_p.1 (name.take (maxName - 1)) = some none

instance (s : Fs) (op : FsOp) : Decidable (op.Meets s) :=
  inferInstanceAs (Decidable (Fs.fresh (op.adds s) s.used s.nextIdx = true))

instance (s : Fs) (op : FsOp) : Decidable (op.Apart s) :=
  decidable_of_iff (op.Meets s ∧ ∀ at_p ∈ op.makes s, ∀ name ∈ at_p.2.head?,
    s.childNamed at_p.1 (name.take (maxName - 1)) = some none)
    ⟨fun h => ⟨h.1, h.2⟩, fun h => ⟨h.meets, h.new⟩⟩

end FsOp

/-! ## Chains of new nodes -/

/-- Nodes of the names are made below `p`, each but the first below the one before; `d` is the last. -/
inductive Grafted (ntype : NodeType) : Fs → (Idx → List Idx) → Idx → List (List UInt8) →
    Fs → (Idx → List Idx) → Idx → Prop where
  | done (s : Fs) (kids : Idx → List Idx) (p : Idx) : Grafted ntype s kids p [] s kids p
  | next {s s' : Fs} {kids kids' : Idx → List Idx} {p d idx : Idx} {name : List UInt8}
      {names : List (List UInt8)} (free : s.ntypes idx = none) (ne_root : idx ≠ rootIdx)
      (dir : s.ntypes p = some .directory)
      (rest : Grafted ntype (planted { s with nextIdx := idx + 1 } idx name ntype p (kids p))
        (Function.update kids p (kids p ++ [idx])) idx names s' kids' d) :
      Grafted ntype s kids p (name :: names) s' kids' d

section Chains

variable {s s' : Fs} {kids kids' : Idx → List Idx} {depth : Idx → Nat} {p d cur idx : Idx}
  {name : List UInt8} {names ns : List (List UInt8)} {ntype : NodeType}

theorem planted_names {ks : List Idx} : (planted s idx name ntype p ks).names =
    Function.update s.names idx (name.take (maxName - 1)) := by
  unfold planted
  cases ks.getLast? <;> rfl

theorem planted_nameTree {n : Nat} {ks : List Idx} :
    (planted { s with nextIdx := n } idx name ntype p ks).nameTree
        (Function.update kids p (kids p ++ [idx])) =
      (s.nameTree kids).insert p idx (name.take (maxName - 1)) := by
  unfold Fs.nameTree
  rw [planted_names]
  rfl

namespace Grafted

theorem tree (h : Grafted ntype s kids p names s' kids' d) (tree : Tree s kids depth) :
    ∃ depth', Tree s' kids' depth' := by
  induction h generalizing depth with
  | done => exact ⟨depth, tree⟩
  | next free ne_root dir _ ih => exact ih (tree.planted free ne_root dir (Nat.succ_pos _))

/-- The nodes that were there keep their types. -/
theorem types (h : Grafted ntype s kids p names s' kids' d) {i : Idx} (live : s.ntypes i ≠ none) :
    s'.ntypes i = s.ntypes i := by
  induction h with
  | done => rfl
  | @next s _ kids _ p _ idx name _ free _ _ _ ih =>
    have ne : i ≠ idx := by
      rintro rfl
      exact live free
    have same : (planted { s with nextIdx := idx + 1 } idx name ntype p (kids p)).ntypes i = s.ntypes i := by
      rw [planted_ntypes, Function.update_of_ne ne]
    exact (ih (same ▸ live)).trans same

/-- Below a directory, a chain of directories ends in one. -/
theorem dir_last (h : Grafted .directory s kids p names s' kids' d) (dir : s.ntypes p = some .directory) :
    s'.ntypes d = some .directory := by
  induction h with
  | done => exact dir
  | next _ _ _ _ ih => exact ih (by rw [planted_ntypes, Function.update_self])

/-- Every path leads where it led. -/
theorem walks (h : Grafted ntype s kids p names s' kids' d) (tree : Tree s kids depth) {i : Idx}
    (found : (s.nameTree kids).walk ns cur = some i) : (s'.nameTree kids').walk ns cur = some i := by
  induction h generalizing depth with
  | done => exact found
  | next free ne_root dir _ ih =>
    refine ih (tree.planted free ne_root dir (Nat.succ_pos _)) ?_
    rw [planted_nameTree]
    exact NameTree.walk_insert (tree.free_not_kid free) found

/-- A new node has no children yet. -/
theorem child_new (tree : Tree s kids depth) (free : s.ntypes idx = none)
    (dir : s.ntypes p = some .directory) (u : Fs) (n : List UInt8) :
    (u.nameTree (Function.update kids p (kids p ++ [idx]))).child idx n = none := by
  have ne : idx ≠ p := by
    rintro rfl
    rw [free] at dir
    cases dir
  have empty : Function.update kids p (kids p ++ [idx]) idx = [] := by
    rw [Function.update_of_ne ne]
    exact tree.free_kids free
  simp only [NameTree.child, Fs.nameTree, empty, List.find?_nil]

/-- The names lead to the last node, if they are stored whole and the first one is new. -/
theorem leads (h : Grafted ntype s kids p names s' kids' d) (tree : Tree s kids depth)
    (whole : ∀ n ∈ names, n.length < maxName) (new : ∀ n ∈ names.head?, (s.nameTree kids).child p n = none)
    (found : (s.nameTree kids).walk ns cur = some p) :
    (s'.nameTree kids').walk (ns ++ names) cur = some d := by
  induction h generalizing depth ns with
  | done => rwa [List.append_nil]
  | @next s _ kids _ p _ idx name names free ne_root dir _ ih =>
    obtain ⟨fits, whole⟩ := List.forall_mem_cons.mp whole
    have all : name.take (maxName - 1) = name := List.take_of_length_le (by omega)
    have grown : (planted { s with nextIdx := idx + 1 } idx name ntype p (kids p)).nameTree
        (Function.update kids p (kids p ++ [idx])) = (s.nameTree kids).insert p idx name := by
      rw [planted_nameTree, all]
    have first := NameTree.walk_insert_new (tree.free_not_kid free) found (new name rfl)
    rw [← grown] at first
    rw [List.append_cons]
    refine ih (tree.planted free ne_root dir (Nat.succ_pos _)) whole (fun n _ => child_new tree free dir _ n) first

theorem distinct (h : Grafted ntype s kids p names s' kids' d) (tree : Tree s kids depth)
    (apart : (s.nameTree kids).Distinct)
    (new : ∀ n ∈ names.head?, (s.nameTree kids).child p (n.take (maxName - 1)) = none) :
    (s'.nameTree kids').Distinct := by
  induction h generalizing depth with
  | done => exact apart
  | @next s _ kids _ p _ idx name names free ne_root dir _ ih =>
    refine ih (tree.planted free ne_root dir (Nat.succ_pos _)) ?_ fun n _ => child_new tree free dir _ _
    rw [planted_nameTree]
    exact apart.insert (tree.free_not_kid free) (NameTree.child_eq_none.mp (new name rfl))

/-- Nodes in use have names, if the new ones get some. -/
theorem named (h : Grafted ntype s kids p names s' kids' d) (old : ∀ i, s.ntypes i ≠ none → s.names i ≠ [])
    (new : ∀ n ∈ names, n ≠ []) : ∀ i, s'.ntypes i ≠ none → s'.names i ≠ [] := by
  induction h with
  | done => exact old
  | @next s _ kids _ p _ idx name names free ne_root dir _ ih =>
    obtain ⟨some_byte, new⟩ := List.forall_mem_cons.mp new
    refine ih (fun i live => ?_) new
    rw [planted_ntypes] at live
    rw [planted_names]
    by_cases here : i = idx
    · rw [here, Function.update_self]
      simpa [maxName] using some_byte
    · rw [Function.update_of_ne here] at live ⊢
      exact old i live

/-- Each new node takes a free one. -/
theorem freeNodes (h : Grafted ntype s kids p names s' kids' d) :
    s'.freeNodes + names.length = s.freeNodes := by
  induction h with
  | done => rfl
  | @next s _ kids _ p _ idx name names free ne_root _ _ ih =>
    have taken : (Finset.univ.filter fun i => i ≠ rootIdx ∧
        (planted { s with nextIdx := idx + 1 } idx name ntype p (kids p)).ntypes i = none) =
        (Finset.univ.filter fun i => i ≠ rootIdx ∧ s.ntypes i = none).erase idx := by
      ext i
      by_cases here : i = idx
      · simp [here]
      · simp [here]
    have some_free : idx ∈ Finset.univ.filter fun i => i ≠ rootIdx ∧ s.ntypes i = none := by
      simp [ne_root, free]
    have less := Finset.card_erase_add_one some_free
    rw [← taken] at less
    rw [List.length_cons, ← add_assoc, ih]
    exact less

/-- There were free nodes for what is made. -/
theorem makes (h : Grafted ntype s kids p names s' kids' d) {op : FsOp} {left : List (List UInt8)}
    (at_p : op.place s = some (p, names ++ left)) : ∃ more, op.makes s = some (p, names ++ more) := by
  have enough := h.freeNodes
  refine ⟨left.take (s.freeNodes - names.length), ?_⟩
  rw [FsOp.makes, at_p, Option.map_some, List.take_append, List.take_of_length_le (by omega)]

end Grafted

/-- `create` where it makes no node. -/
theorem create_refused {parent : Int} (tree : Tree s kids depth) (no_place : s.createPlace parent name = none) :
    Fs.create ntype parent name s = .ok none s := by
  unfold Fs.createPlace at no_place
  unfold Fs.create
  cases index : index? parent with
  | none => rfl
  | some p =>
    simp only [index, ite_eq_right_iff, reduceCtorEq, imp_false, not_and] at no_place
    simp only [Prog.bind_apply, Prog.get]
    by_cases dir : s.ntypes p = some .directory
    · have searched : s.findChild parent name = some ((s.nameTree kids).child p name) := by
        simpa only [Fs.findChild, index] using tree.child_eq p name
      have here := no_place dir
      rw [tree.child_eq] at here
      obtain ⟨c, found⟩ : ∃ c, (s.nameTree kids).child p name = some c :=
        Option.ne_none_iff_exists'.mp fun eq => here (congrArg some eq)
      simp only [dir, ne_eq, not_true_eq_false, if_false, Prog.bind_apply, look, searched, found]
      rfl
    · simp only [dir, ne_eq, not_false_eq_true, if_true]
      rfl

/-- The place is a directory that lacks the name. -/
theorem createPlace_some {parent : Int} (at_p : s.createPlace parent name = some (p, names)) :
    index? parent = some p ∧ names = [name] ∧ s.ntypes p = some .directory ∧
      s.childNamed p name = some none := by
  unfold Fs.createPlace at at_p
  cases index : index? parent with
  | none => simp [index] at at_p
  | some q =>
    simp only [index] at at_p
    split_ifs at at_p with holds
    obtain ⟨rfl, rfl⟩ := Prod.mk.inj (Option.some.inj at_p)
    exact ⟨rfl, rfl, holds⟩

/-- `create` where it makes a node, if there is a free one. -/
theorem create_grafts {parent : Int} (tree : Tree s kids depth) (at_p : s.createPlace parent name = some (p, names))
    (fresh : s.Fresh 1) :
    Fs.create ntype parent name s = .ok none s ∨ ∃ idx s' kids',
      Fs.create ntype parent name s = .ok (some idx) s' ∧ Grafted ntype s kids p names s' kids' idx := by
  obtain ⟨index, rfl, dir, missing⟩ := createPlace_some at_p
  have made : Fs.create ntype parent name s = Fs.setNode name ntype p s := by
    rw [index?_eq index]
    exact create_eq dir missing
  rw [made]
  rcases tree.setNode_cases dir fresh with ⟨_, run⟩ | ⟨idx, free, ne_root, run, _⟩
  · exact .inl run
  · exact .inr ⟨idx, _, _, run, .next free ne_root dir (.done _ _ _)⟩

/-- Below a directory without children the whole chain is made, or what there are free nodes for. -/
theorem mkdirLoop_grafts (tree : Tree s kids depth) (dir : s.ntypes p = some .directory)
    (missing : ∀ n ∈ names.head?, s.childNamed p n = some none) (fresh : s.Fresh names.length) :
    ∃ made left s' kids' d, names = made ++ left ∧ Grafted .directory s kids p made s' kids' d ∧
      (left = [] ∧ Fs.mkdirLoop names p s = .ok () s' ∨
        left ≠ [] ∧ Fs.mkdirLoop names p s = .err .noMemory s' ∧
          Fs.nextSlot s'.used s'.nextIdx = none) := by
  induction names generalizing s kids depth p with
  | nil => exact ⟨[], [], s, kids, p, rfl, .done _ _ _, .inl ⟨rfl, rfl⟩⟩
  | cons name names ih =>
    have new := missing name rfl
    have here : Fs.mkdirLoop (name :: names) p s = _ := Prog.bind_ok (look_some new)
    dsimp only at here
    rcases tree.setNode_cases dir fresh with ⟨full, run⟩ | ⟨idx, free, ne_root, run, later⟩
    · refine ⟨[], name :: names, s, kids, p, rfl, .done _ _ _, .inr ⟨List.cons_ne_nil _ _, ?_, full⟩⟩
      rw [here]
      exact Prog.bind_ok ((create_eq dir new).trans run)
    · have new_dir : (planted { s with nextIdx := idx + 1 } idx name .directory p (kids p)).ntypes idx =
          some .directory := by rw [planted_ntypes, Function.update_self]
      have tree' : Tree (planted { s with nextIdx := idx + 1 } idx name .directory p (kids p)) _ _ :=
        tree.planted free ne_root dir (Nat.succ_pos idx)
      have nothing (n : List UInt8) (_ : n ∈ names.head?) :
          (planted { s with nextIdx := idx + 1 } idx name .directory p (kids p)).childNamed idx n = some none := by
        rw [tree'.child_eq, Grafted.child_new tree free dir]
      obtain ⟨made, left, s', kids', d, split, grafted, out⟩ := ih tree' new_dir nothing later
      have step : Fs.mkdirLoop (name :: names) p s = Fs.mkdirLoop names idx
          (planted { s with nextIdx := idx + 1 } idx name .directory p (kids p)) := by
        rw [here]
        exact Prog.bind_ok ((create_eq dir new).trans run)
      refine ⟨name :: made, left, s', kids', d, by rw [split]; rfl, .next free ne_root dir grafted, ?_⟩
      rwa [step]

/-- Where the search for the first missing component ends. -/
theorem mkdirLoop_walks {cs : List (List UInt8)} (tree : Tree s kids depth)
    (dir : s.ntypes cur = some .directory) :
    (s.mkdirPlace cs cur = none ∧
        ((cs = [] ∧ Fs.mkdirLoop cs cur s = .ok () s) ∨ ∃ e, Fs.mkdirLoop cs cur s = .err e s)) ∨
      ∃ walked names p, cs = walked ++ names ∧ names ≠ [] ∧ s.mkdirPlace cs cur = some (p, names) ∧
        (s.nameTree kids).walk walked cur = some p ∧ s.ntypes p = some .directory ∧
        (∀ n ∈ names.head?, s.childNamed p n = some none) ∧
        Fs.mkdirLoop cs cur s = Fs.mkdirLoop names p s := by
  induction cs generalizing cur with
  | nil => exact .inl ⟨rfl, .inl ⟨rfl, rfl⟩⟩
  | cons c cs ih =>
    have searched := tree.child_eq cur c
    cases found : (s.nameTree kids).child cur c with
    | none =>
      rw [found] at searched
      refine .inr ⟨[], c :: cs, cur, rfl, List.cons_ne_nil _ _, ?_, rfl, dir, ?_, rfl⟩
      · simp only [Fs.mkdirPlace, searched]
      · rintro n ⟨⟩
        exact searched
    | some next =>
      rw [found] at searched
      have here : Fs.mkdirLoop (c :: cs) cur s = _ := Prog.bind_ok (look_some searched)
      dsimp only at here
      by_cases last : cs = []
      · subst last
        refine .inl ⟨?_, .inr ⟨_, by rw [here, if_pos rfl]; rfl⟩⟩
        simp only [Fs.mkdirPlace, searched, ite_self]
      · rw [if_neg last] at here
        have typed : Fs.mkdirLoop (c :: cs) cur s = (if s.ntypes next ≠ some .directory
            then Prog.throw .wrongType else Fs.mkdirLoop cs next : FsM Unit) s :=
          here.trans (Prog.bind_ok (Prog.get_apply s))
        by_cases below : s.ntypes next = some .directory
        · have step : Fs.mkdirLoop (c :: cs) cur s = Fs.mkdirLoop cs next s := by
            rw [typed, if_neg (not_not.mpr below)]
          have place : s.mkdirPlace (c :: cs) cur = s.mkdirPlace cs next := by
            simp only [Fs.mkdirPlace, searched, below, if_true]
          rw [step, place]
          rcases ih below with ⟨no_place, ⟨empty, _⟩ | refused⟩ |
            ⟨walked, names, p, split, some_name, at_p, walk, rest⟩
          · exact absurd empty last
          · exact .inl ⟨no_place, .inr refused⟩
          · refine .inr ⟨c :: walked, names, p, by rw [split]; rfl, some_name, at_p, ?_, rest⟩
            rw [NameTree.walk, found]
            exact walk
        · refine .inl ⟨?_, .inr ⟨.wrongType, ?_⟩⟩
          · simp only [Fs.mkdirPlace, searched, below, if_false]
          · rw [typed, if_pos below]
            rfl

end Chains

/-! ## The calls -/

section Calls

variable {s s' : Fs} {kids : Idx → List Idx} {depth : Idx → Nat} {path : List UInt8}

/-- The components up to the place lead there, and `mkdir_path` makes a chain for the others. -/
theorem mkdirPath_grafts (tree : Tree s kids depth) (meets : (FsOp.mkdirPath path).Meets s) :
    ((FsOp.mkdirPath path).place s = none ∧
        ((Fs.components path = [] ∧ Fs.mkdirPath path s = .ok () s) ∨ ∃ e, Fs.mkdirPath path s = .err e s)) ∨
      ∃ walked made left p s' kids' d, (FsOp.mkdirPath path).place s = some (p, made ++ left) ∧
        Fs.components path = walked ++ (made ++ left) ∧ (s.nameTree kids).walk walked rootIdx = some p ∧
        s.ntypes p = some .directory ∧ (∀ n ∈ (made ++ left).head?, (s.nameTree kids).child p n = none) ∧
        Grafted .directory s kids p made s' kids' d ∧
        (left = [] ∧ Fs.mkdirPath path s = .ok () s' ∨
          left ≠ [] ∧ Fs.mkdirPath path s = .err .noMemory s' ∧ Fs.nextSlot s'.used s'.nextIdx = none) := by
  have placed : (FsOp.mkdirPath path).place s = s.mkdirPlace (Fs.components path) rootIdx := by
    simp only [FsOp.place, tree.root_eq, Option.bind_some, Fs.components_clean]
  have run : Fs.mkdirPath path s = Fs.mkdirLoop (Fs.components path) rootIdx s := by
    unfold Fs.mkdirPath
    split_ifs with nothing
    · rw [← Fs.components_clean, nothing]
      rfl
    · rw [Prog.bind_ok (Prog.get_apply s), tree.root_eq, Fs.components_clean]
  rw [placed, run]
  rcases mkdirLoop_walks tree tree.root_dir with refused | ⟨walked, names, p, split, _, at_p, walk, dir, missing, go⟩
  · exact .inl refused
  · have count : (FsOp.mkdirPath path).adds s = names.length := by
      rw [FsOp.adds_eq, placed, at_p]
      rfl
    have fresh : s.Fresh names.length := count ▸ meets
    obtain ⟨made, left, s', kids', d, rfl, grafted, out⟩ := mkdirLoop_grafts tree dir missing fresh
    rw [← go] at out
    refine .inr ⟨walked, made, left, p, s', kids', d, at_p, split, walk, dir, fun n first => ?_, grafted, out⟩
    have new := missing n first
    rw [tree.child_eq] at new
    exact Option.some.inj new

/-- The parent that `create_file_path` finds, and the name, are the path. -/
theorem fileTarget_walks (tree : Tree s kids depth) {parent : Int} {name : List UInt8} {p : Idx}
    (target : s.fileTarget path = some (some (parent, name))) (index : index? parent = some p)
    (some_byte : name ≠ []) :
    ∃ walked, Fs.components path = walked ++ [name] ∧ (s.nameTree kids).walk walked rootIdx = some p := by
  unfold Fs.fileTarget at target
  dsimp only at target
  split_ifs at target with nothing inside
  · simp at target
  · obtain ⟨split, no_slash⟩ := Fs.splitLast_eq inside
    rw [tree.resolve_eq, Option.bind_eq_bind, Option.bind_some] at target
    cases walk : (s.nameTree kids).walk (Fs.components (Fs.splitLast (Fs.clean path)).1) rootIdx with
    | none => simp [walk] at target
    | some q =>
      rw [walk] at target
      obtain ⟨rfl, rfl⟩ := Prod.mk.inj (Option.some.inj (Option.some.inj target))
      rw [index?_val] at index
      refine ⟨_, ?_, walk.trans index⟩
      rw [← Fs.components_clean, split, Fs.components_append, Fs.components_name no_slash some_byte]
      rw [← split]
  · rw [tree.root_eq] at target
    obtain ⟨rfl, rfl⟩ := Prod.mk.inj (Option.some.inj (Option.some.inj target))
    refine ⟨[], ?_, ?_⟩
    · rw [← Fs.components_clean, Fs.components_name inside some_byte, List.nil_append]
    · rw [index?_val] at index
      exact index

/-- What `create_file_path` does. -/
theorem createFilePath_grafts (tree : Tree s kids depth) (meets : (FsOp.createFilePath path).Meets s) :
    Fs.createFilePath path s = .ok none s ∨
      ∃ p name idx s' kids', (FsOp.createFilePath path).place s = some (p, [name]) ∧
        (name ≠ [] → ∃ walked, Fs.components path = walked ++ [name] ∧
          (s.nameTree kids).walk walked rootIdx = some p) ∧
        (s.nameTree kids).child p name = none ∧ Fs.createFilePath path s = .ok (some idx) s' ∧
        Grafted .file s kids p [name] s' kids' idx := by
  obtain ⟨target, found⟩ := Fs.IsTree.fileTarget_some ⟨kids, depth, tree⟩ path
  have run : Fs.createFilePath path s = _ := Prog.bind_ok (look_some found)
  rcases target with _ | ⟨parent, name⟩
  · exact .inl run
  · have run : Fs.createFilePath path s = Fs.create .file parent name s := run
    have placed : (FsOp.createFilePath path).place s = s.createPlace parent name := by
      simp only [FsOp.place, found]
    rw [run, placed]
    cases at_p : s.createPlace parent name with
    | none => exact .inl (create_refused tree at_p)
    | some place =>
      obtain ⟨p, names⟩ := place
      have count : (FsOp.createFilePath path).adds s = names.length := by
        rw [FsOp.adds_eq, placed, at_p]
        rfl
      obtain ⟨index, rfl, _, missing⟩ := createPlace_some at_p
      have fresh : s.Fresh 1 := by
        unfold FsOp.Meets at meets
        rwa [count] at meets
      rw [tree.child_eq] at missing
      rcases create_grafts tree at_p fresh with full | ⟨idx, s', kids', made, grafted⟩
      · exact .inl full
      · exact .inr ⟨p, name, idx, s', kids', rfl, fileTarget_walks tree found index, Option.some.inj missing,
          made, grafted⟩

/-- A call of `create_file` or `create_dir`. -/
theorem create_ends {ntype : NodeType} {parent : Int} {name : List UInt8} (tree : Tree s kids depth)
    (fresh : s.Fresh (s.createAdds parent name)) (ended : (Fs.create ntype parent name s).Ends s') :
    s' = s ∨ ∃ p made left kids' d, s.createPlace parent name = some (p, made ++ left) ∧
      Grafted ntype s kids p made s' kids' d := by
  cases at_p : s.createPlace parent name with
  | none =>
    rw [create_refused tree at_p] at ended
    exact .inl ended.state_eq.symm
  | some place =>
    obtain ⟨p, names⟩ := place
    obtain ⟨_, rfl, _, _⟩ := createPlace_some at_p
    rw [Fs.createAdds_eq, at_p] at fresh
    rcases create_grafts tree at_p fresh with full | ⟨idx, u, kids', made, grafted⟩
    · rw [full] at ended
      exact .inl ended.state_eq.symm
    · rw [made] at ended
      obtain rfl : u = s' := ended.state_eq
      exact .inr ⟨p, [name], [], kids', idx, rfl, grafted⟩

/-- Every call but a removal makes a chain at its place, or nothing. -/
theorem FsOp.grafts {op : FsOp} (tree : Tree s kids depth) (meets : op.Meets s)
    (creates : ∀ parent child, op ≠ .remove parent child) (ended : (op.perform s).Ends s') :
    s' = s ∨ ∃ ntype p made left kids' d, op.place s = some (p, made ++ left) ∧
      Grafted ntype s kids p made s' kids' d := by
  cases op with
  | createFile parent name => exact (create_ends tree meets (Prog.map_ends ended)).imp_right fun made => ⟨_, made⟩
  | createDir parent name => exact (create_ends tree meets (Prog.map_ends ended)).imp_right fun made => ⟨_, made⟩
  | mkdirPath path =>
    have ended : (Fs.mkdirPath path s).Ends s' := ended
    rcases mkdirPath_grafts tree meets with
      ⟨_, ⟨_, run⟩ | ⟨e, run⟩⟩ | ⟨_, made, left, p, u, kids', d, at_p, _, _, _, _, grafted, ⟨_, run⟩ | ⟨_, run, _⟩⟩
    · exact .inl (run ▸ ended).state_eq.symm
    · exact .inl (run ▸ ended).state_eq.symm
    · obtain rfl : u = s' := (run ▸ ended).state_eq
      exact .inr ⟨_, p, made, left, kids', d, at_p, grafted⟩
    · obtain rfl : u = s' := (run ▸ ended).state_eq
      exact .inr ⟨_, p, made, left, kids', d, at_p, grafted⟩
  | createFilePath path =>
    have ended := Prog.map_ends ended
    rcases createFilePath_grafts tree meets with run | ⟨p, name, idx, u, kids', at_p, _, _, run, grafted⟩
    · rw [run] at ended
      exact .inl ended.state_eq.symm
    · rw [run] at ended
      obtain rfl : u = s' := ended.state_eq
      exact .inr ⟨_, p, [name], [], kids', idx, at_p, grafted⟩
  | remove parent child => exact absurd rfl (creates parent child)

/-- What a call can do to the state: nothing, a chain of new nodes at its place, or the removal of a leaf. -/
theorem FsOp.step_cases {op : FsOp} (tree : Tree s kids depth) (meets : op.Meets s)
    (ended : (op.perform s).Ends s') :
    s' = s ∨ (∃ ntype p made left kids' d, op.place s = some (p, made ++ left) ∧
        Grafted ntype s kids p made s' kids' d) ∨
      ∃ p c xs ys, kids p = xs ++ c :: ys ∧ kids c = [] ∧ s' = s.unlink p c xs.getLast? := by
  by_cases removal : ∃ parent child, op = .remove parent child
  · obtain ⟨parent, child, rfl⟩ := removal
    have ended : (Fs.remove parent child s).Ends s' := Prog.map_ends ended
    rcases tree.remove_cases parent child with out | ⟨p, c, xs, ys, list, leaf, out⟩
    · exact .inl (out ▸ ended).state_eq.symm
    · exact .inr (.inr ⟨p, c, xs, ys, list, leaf, (out ▸ ended).state_eq.symm⟩)
  · rcases op.grafts tree meets (fun parent child eq => removal ⟨parent, child, eq⟩) ended with same | grafted
    · exact .inl same
    · exact .inr (.inl grafted)

end Calls

end CapsuleOS.Fileagent
