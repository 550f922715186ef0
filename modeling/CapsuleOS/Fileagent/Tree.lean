import CapsuleOS.Fileagent.RamFs
import CapsuleOS.Lib.Links

/-!
# The tree of nodes

`Tree` relates the arrays to a list of children for every node. The calls keep it as long as the index
that the next node gets is not in use (`Fresh`): after an index was given out a second time, the search
goes on behind it and takes what it finds there.
-/
namespace CapsuleOS.Fileagent

open Lib

/-- Every node in use other than the root is once the child of a directory, and deeper than that. -/
structure Tree (s : Fs) (kids : Idx → List Idx) (depth : Idx → Nat) : Prop where
  root_eq : s.root = some rootIdx
  root_dir : s.ntypes rootIdx = some .directory
  next_pos : 1 ≤ s.nextIdx
  path : ∀ p, Links.Path s.nextSibling (s.firstChild p) (kids p) none
  nodup : ∀ p, (kids p).Nodup
  not_root : ∀ p, rootIdx ∉ kids p
  live : ∀ p, ∀ c ∈ kids p, s.ntypes c ≠ none
  parent : ∀ p, ∀ c ∈ kids p, s.parents c = some p
  owner : ∀ p, kids p ≠ [] → s.ntypes p = some .directory
  covers : ∀ c ≠ rootIdx, s.ntypes c ≠ none → ∃ p, c ∈ kids p
  count : ∀ p, s.childCounts p = (kids p).length
  deeper : ∀ p, ∀ c ∈ kids p, depth p < depth c

namespace Fs

def IsTree (s : Fs) : Prop := ∃ kids depth, Tree s kids depth

end Fs

section Searches

variable {s : Fs} {name : List UInt8} {kids : Idx → List Idx} {depth : Idx → Nat}

theorem search_eq {l : Option Idx} {xs : List Idx} (h : Links.Path s.nextSibling l xs none) {rounds : Nat}
    (enough : xs.length ≤ rounds) : s.search name rounds l = some (xs.find? (s.names · = name)) := by
  induction xs generalizing l rounds with
  | nil =>
    obtain rfl : l = none := h
    cases rounds <;> rfl
  | cons x xs ih =>
    obtain ⟨rfl, rest⟩ := h
    obtain ⟨rounds, rfl⟩ : ∃ n, rounds = n + 1 := ⟨rounds - 1, by simp at enough; omega⟩
    rw [Fs.search, List.find?_cons, ih rest (by simpa using enough)]
    by_cases here : s.names x = name <;> simp [here]

theorem lastSibling_eq {x : Idx} {xs : List Idx} (h : Links.Path s.nextSibling (some x) (x :: xs) none)
    {rounds : Nat} (enough : xs.length < rounds) : s.lastSibling rounds x = (x :: xs).getLast? := by
  induction xs generalizing x rounds with
  | nil =>
    obtain ⟨rounds, rfl⟩ : ∃ n, rounds = n + 1 := ⟨rounds - 1, by simp at enough; omega⟩
    obtain ⟨_, last⟩ := h
    have last : s.nextSibling x = none := last
    simp [Fs.lastSibling, last]
  | cons y ys ih =>
    obtain ⟨rounds, rfl⟩ : ∃ n, rounds = n + 1 := ⟨rounds - 1, by simp at enough; omega⟩
    obtain ⟨_, next, rest⟩ := h
    simp only [Fs.lastSibling, next]
    rw [ih ⟨rfl, rest⟩ (by simpa using enough), List.getLast?_cons_cons]

theorem Tree.length_le (h : Tree s kids depth) (p : Idx) : (kids p).length < maxFiles := by
  have bound := (List.nodup_cons.mpr ⟨h.not_root p, h.nodup p⟩).length_le_card
  rwa [List.length_cons, Fintype.card_fin] at bound

theorem Tree.childNamed (h : Tree s kids depth) (p : Idx) (name : List UInt8) :
    s.childNamed p name = some ((kids p).find? (s.names · = name)) :=
  search_eq (h.path p) (h.length_le p).le

theorem index?_val (i : Idx) : index? i.val = some i := by
  have inside : (0 : Int) ≤ i.val ∧ ((i.val : Nat) : Int).toNat < maxFiles := by simp
  simp [index?, inside]

theorem index?_eq {idx : Int} {i : Idx} (h : index? idx = some i) : idx = i.val := by
  unfold index? at h
  split_ifs at h with inside
  obtain rfl := Option.some.inj h
  exact (Int.toNat_of_nonneg inside.1).symm

end Searches

/-! ## A new node -/

section Create

variable {s : Fs} {kids : Idx → List Idx} {depth : Idx → Nat} {idx p : Idx} {name : List UInt8}
  {ntype : NodeType}

/-- A node that is not in use has no part in the tree. -/
theorem Tree.free_kids (h : Tree s kids depth) (free : s.ntypes idx = none) : kids idx = [] := by
  by_contra some_kid
  have dir := h.owner idx some_kid
  rw [free] at dir
  cases dir

theorem Tree.free_not_kid (h : Tree s kids depth) (free : s.ntypes idx = none) (q : Idx) :
    idx ∉ kids q := fun mem => h.live q idx mem free

/-- The state after `set_node` has put the node behind the siblings `ks`. -/
def planted (s : Fs) (idx : Idx) (name : List UInt8) (ntype : NodeType) (p : Idx) (ks : List Idx) : Fs :=
  let s := s.fill idx name ntype p
  let s := match ks.getLast? with
    | none => s.setFirst p (some idx)
    | some last => s.setNext last (some idx)
  s.setCount p (s.childCounts p + 1)

section Planted

variable {ks : List Idx}

@[simp] theorem planted_root : (planted s idx name ntype p ks).root = s.root := by
  unfold planted
  cases ks.getLast? <;> rfl

@[simp] theorem planted_nextIdx : (planted s idx name ntype p ks).nextIdx = s.nextIdx := by
  unfold planted
  cases ks.getLast? <;> rfl

@[simp] theorem planted_ntypes : (planted s idx name ntype p ks).ntypes =
    Function.update s.ntypes idx (some ntype) := by
  unfold planted
  cases ks.getLast? <;> rfl

@[simp] theorem planted_parents : (planted s idx name ntype p ks).parents =
    Function.update s.parents idx (some p) := by
  unfold planted
  cases ks.getLast? <;> rfl

@[simp] theorem planted_births : (planted s idx name ntype p ks).births =
    Function.update s.births idx (s.births idx + 1) := by
  unfold planted
  cases ks.getLast? <;> rfl

theorem planted_counts (ne : p ≠ idx) : (planted s idx name ntype p ks).childCounts =
    Function.update (Function.update s.childCounts idx 0) p ((s.childCounts p + 1) % 256) := by
  unfold planted
  cases ks.getLast? <;>
    simp only [Fs.setCount, Fs.setFirst, Fs.setNext, Fs.fill, Function.update_of_ne ne]

theorem planted_first_of_ne {q : Idx} (ne : q ≠ p) :
    (planted s idx name ntype p ks).firstChild q = Function.update s.firstChild idx none q := by
  unfold planted
  cases ks.getLast? with
  | none => exact Function.update_of_ne ne _ _
  | some last => rfl

end Planted

theorem setNode_ok (h : Tree s kids depth) (free : s.ntypes idx = none) (dir : s.ntypes p = some .directory)
    {s₁ : Fs} (alloc : Fs.allocIdx s = .ok (some idx) s₁) (same : s₁ = { s with nextIdx := s₁.nextIdx }) :
    Fs.setNode name ntype p s = .ok (some idx) (planted s₁ idx name ntype p (kids p)) := by
  have ne : p ≠ idx := by
    rintro rfl
    rw [free] at dir
    cases dir
  have away := h.free_not_kid free p
  have path : Links.Path (s₁.fill idx name ntype p).nextSibling
      ((s₁.fill idx name ntype p).firstChild p) (kids p) none := by
    rw [same]
    simp only [Fs.fill, Function.update_of_ne ne]
    exact (h.path p).update away none
  simp only [Fs.setNode, Prog.bind_apply, alloc, Prog.modify, Fs.append, Prog.get]
  cases list : kids p with
  | nil =>
    rw [list] at path
    have none_yet : (s₁.fill idx name ntype p).firstChild p = none := path
    simp only [none_yet]
    rfl
  | cons x xs =>
    rw [list] at path
    have enough : xs.length < maxFiles := by
      have bound := h.length_le p
      rw [list, List.length_cons] at bound
      omega
    have first : (s₁.fill idx name ntype p).firstChild p = some x := path.1
    rw [first] at path
    have last := lastSibling_eq path enough
    obtain ⟨k, hk⟩ : ∃ k, (x :: xs).getLast? = some k := ⟨_, List.getLast?_eq_some_getLast (by simp)⟩
    rw [hk] at last
    simp only [first, Prog.bind_apply, look, last, planted, hk, Prog.modify]
    rfl

/-- The siblings with the new node at their end. -/
theorem Tree.planted_path (h : Tree s kids depth) (free : s.ntypes idx = none) (ne : p ≠ idx) :
    Links.Path (planted s idx name ntype p (kids p)).nextSibling
      ((planted s idx name ntype p (kids p)).firstChild p) (kids p ++ [idx]) none := by
  have away := h.free_not_kid free p
  have path := (h.path p).update away none
  rcases List.eq_nil_or_concat (kids p) with nil | ⟨ks, k, list⟩
  · rw [nil]
    simp only [planted, List.getLast?_nil, Fs.setCount, Fs.setFirst, Fs.fill, Function.update_self]
    exact ⟨rfl, Function.update_self _ _ _⟩
  · rw [List.concat_eq_append] at list
    have nodup := h.nodup p
    rw [list] at away path nodup ⊢
    simp only [planted, List.getLast?_concat, Fs.setCount, Fs.setNext, Fs.fill, Function.update_of_ne ne]
    exact path.snoc nodup away (Function.update_self _ _ _)

/-- The siblings elsewhere. -/
theorem Tree.planted_path_of_ne (h : Tree s kids depth) (free : s.ntypes idx = none) {q : Idx}
    (ne : q ≠ p) : Links.Path (planted s idx name ntype p (kids p)).nextSibling
      ((planted s idx name ntype p (kids p)).firstChild q) (kids q) none := by
  have away := h.free_not_kid free q
  have path : Links.Path (Function.update s.nextSibling idx none)
      (Function.update s.firstChild idx none q) (kids q) none := by
    by_cases new : q = idx
    · subst new
      rw [h.free_kids free, Function.update_self]
      rfl
    · rw [Function.update_of_ne new]
      exact (h.path q).update away none
  rw [planted_first_of_ne ne]
  cases last : (kids p).getLast? with
  | none =>
    simp only [planted, last, Fs.setCount, Fs.setFirst, Fs.fill]
    exact path
  | some k =>
    simp only [planted, last, Fs.setCount, Fs.setNext, Fs.fill]
    refine path.update (fun mem => ne ?_) _
    have mine := h.parent p k (List.mem_of_getLast? last)
    have other := h.parent q k mem
    rw [mine] at other
    exact (Option.some.inj other).symm

/-- The new node comes last, one deeper than its parent. -/
theorem Tree.planted (h : Tree s kids depth) (free : s.ntypes idx = none) (ne_root : idx ≠ rootIdx)
    (dir : s.ntypes p = some .directory) {n : Nat} (pos : 1 ≤ n) :
    Tree (planted { s with nextIdx := n } idx name ntype p (kids p))
      (Function.update kids p (kids p ++ [idx])) (Function.update depth idx (depth p + 1)) := by
  have ne : p ≠ idx := by
    rintro rfl
    rw [free] at dir
    cases dir
  have h' : Tree { s with nextIdx := n } kids depth := { h with next_pos := pos }
  have kid_ne : ∀ q, ∀ c ∈ kids q, c ≠ idx := fun q c mem eq => h.free_not_kid free q (eq ▸ mem)
  -- the children of a node are the old ones, and the new node
  have member : ∀ q, ∀ c ∈ Function.update kids p (kids p ++ [idx]) q, c ∈ kids q ∨ (q = p ∧ c = idx) := by
    intro q c mem
    by_cases here : q = p
    · subst here
      rw [Function.update_self] at mem
      simpa using mem
    · rw [Function.update_of_ne here] at mem
      exact .inl mem
  refine ⟨?_, ?_, ?_, fun q => ?_, fun q => ?_, fun q mem => ?_, fun q c mem => ?_, fun q c mem => ?_,
    fun q some_kid => ?_, fun c not_root live => ?_, fun q => ?_, fun q c mem => ?_⟩
  · rw [planted_root]
    exact h.root_eq
  · rw [planted_ntypes, Function.update_of_ne ne_root.symm]
    exact h.root_dir
  · rw [planted_nextIdx]
    exact pos
  · by_cases here : q = p
    · subst here
      rw [Function.update_self]
      exact h'.planted_path free ne
    · rw [Function.update_of_ne here]
      exact h'.planted_path_of_ne free here
  · by_cases here : q = p
    · subst here
      rw [Function.update_self]
      exact List.nodup_append.mpr ⟨h.nodup q, by simp, by simpa using fun c mem => kid_ne q c mem⟩
    · rw [Function.update_of_ne here]
      exact h.nodup q
  · rcases member q _ mem with old | ⟨_, new⟩
    · exact h.not_root q old
    · exact ne_root new.symm
  · rw [planted_ntypes]
    rcases member q c mem with old | ⟨_, rfl⟩
    · rw [Function.update_of_ne (kid_ne q c old)]
      exact h.live q c old
    · rw [Function.update_self]
      exact Option.some_ne_none ntype
  · rw [planted_parents]
    rcases member q c mem with old | ⟨rfl, rfl⟩
    · rw [Function.update_of_ne (kid_ne q c old)]
      exact h.parent q c old
    · exact Function.update_self _ _ _
  · rw [planted_ntypes]
    by_cases here : q = p
    · subst here
      rw [Function.update_of_ne ne]
      exact dir
    · rw [Function.update_of_ne here] at some_kid
      have owner := h.owner q some_kid
      rw [Function.update_of_ne]
      · exact owner
      · rintro rfl
        rw [free] at owner
        cases owner
  · rw [planted_ntypes] at live
    by_cases new : c = idx
    · exact ⟨p, by simp [new]⟩
    · rw [Function.update_of_ne new] at live
      obtain ⟨q, mem⟩ := h.covers c not_root live
      refine ⟨q, ?_⟩
      by_cases here : q = p
      · subst here
        rw [Function.update_self]
        exact List.mem_append_left _ mem
      · rwa [Function.update_of_ne here]
  · rw [planted_counts ne]
    by_cases here : q = p
    · subst here
      have bound := h.length_le q
      unfold maxFiles at bound
      simp only [Function.update_self, List.length_append, List.length_singleton, h.count q]
      omega
    · simp only [Function.update_of_ne here]
      by_cases new : q = idx
      · subst new
        rw [Function.update_self, h.free_kids free, List.length_nil]
      · rw [Function.update_of_ne new, h.count q]
  · rcases member q c mem with old | ⟨rfl, rfl⟩
    · have parent_ne : q ≠ idx := by
        rintro rfl
        rw [h.free_kids free] at old
        cases old
      rw [Function.update_of_ne parent_ne, Function.update_of_ne (kid_ne q c old)]
      exact h.deeper q c old
    · rw [Function.update_self, Function.update_of_ne ne]
      omega

/-! ## Where it goes -/

namespace Fs

def used (s : Fs) : Idx → Bool := fun i => (s.ntypes i).isSome

/-- The index that is given out next, whether it is in use or not. -/
def nextSlot (used : Idx → Bool) (next : Nat) : Option Idx :=
  if h : next < maxFiles then some ⟨next, h⟩
  else (List.finRange maxFiles).find? fun j => j ≠ rootIdx ∧ used j = false

/-- None of the next `n` nodes is put where another one is. -/
def fresh : Nat → (Idx → Bool) → Nat → Bool
  | 0, _, _ => true
  | n + 1, used, next =>
    match nextSlot used next with
    | none => true
    | some j => !used j && fresh n (Function.update used j true) (j + 1)

/-- The next `n` nodes get indices that are not in use. -/
def Fresh (s : Fs) (n : Nat) : Prop := fresh n s.used s.nextIdx = true

end Fs

theorem firstFree_eq : Fs.firstFree s.ntypes =
    (List.finRange maxFiles).find? fun j => j ≠ rootIdx ∧ s.used j = false := by
  unfold Fs.firstFree Fs.used
  congr 1
  funext j
  simp

theorem allocIdx_some (next : Fs.nextSlot s.used s.nextIdx = some idx) :
    Fs.allocIdx s = .ok (some idx) { s with nextIdx := idx + 1 } := by
  unfold Fs.nextSlot at next
  by_cases room : s.nextIdx < maxFiles
  · rw [dif_pos room] at next
    obtain rfl := Option.some.inj next
    simp [Fs.allocIdx, room]
  · rw [dif_neg room, ← firstFree_eq] at next
    simp [Fs.allocIdx, room, next]

theorem allocIdx_none (next : Fs.nextSlot s.used s.nextIdx = none) : Fs.allocIdx s = .ok none s := by
  unfold Fs.nextSlot at next
  by_cases room : s.nextIdx < maxFiles
  · simp [room] at next
  · rw [dif_neg room, ← firstFree_eq] at next
    simp [Fs.allocIdx, room, next]

theorem planted_used {n : Nat} {ks : List Idx} :
    (planted { s with nextIdx := n } idx name ntype p ks).used = Function.update s.used idx true := by
  funext i
  simp only [Fs.used, planted_ntypes]
  by_cases here : i = idx
  · simp [here]
  · simp [Function.update_of_ne here, Fs.used]

theorem Fs.Fresh.slot {n : Nat} (fresh : s.Fresh (n + 1)) (next : Fs.nextSlot s.used s.nextIdx = some idx) :
    s.ntypes idx = none ∧ Fs.fresh n (Function.update s.used idx true) (idx + 1) = true := by
  unfold Fs.Fresh at fresh
  rw [Fs.fresh] at fresh
  simp only [next, Bool.and_eq_true, Bool.not_eq_true'] at fresh
  refine ⟨?_, fresh.2⟩
  simpa [Fs.used] using fresh.1

/-- Nodes in use stay, and an index gets a new node once at most. -/
structure Grows (s s' : Fs) : Prop where
  old : ∀ i, s.used i = true → s'.used i = true ∧ s'.births i = s.births i
  new : ∀ i, s.used i = false → s'.births i = s.births i + if s'.used i then 1 else 0

theorem Grows.refl (s : Fs) : Grows s s :=
  ⟨fun _ used => ⟨used, rfl⟩, fun _ unused => by simp [unused]⟩

theorem Grows.trans {s' s'' : Fs} (h : Grows s s') (h' : Grows s' s'') : Grows s s'' := by
  refine ⟨fun i used => ?_, fun i unused => ?_⟩
  · obtain ⟨used', same⟩ := h.old i used
    obtain ⟨used'', same'⟩ := h'.old i used'
    exact ⟨used'', same'.trans same⟩
  · have first := h.new i unused
    cases used' : s'.used i with
    | true =>
      obtain ⟨used'', same⟩ := h'.old i used'
      rw [same, first, used', used'']
    | false =>
      rw [h'.new i used', first, used']
      simp

theorem grows_planted (free : s.ntypes idx = none) {n : Nat} {ks : List Idx} :
    Grows s (planted { s with nextIdx := n } idx name ntype p ks) := by
  have unused : s.used idx = false := by simp [Fs.used, free]
  refine ⟨fun i used => ?_, fun i unused' => ?_⟩ <;> rw [planted_used, planted_births]
  · have ne : i ≠ idx := by
      rintro rfl
      rw [unused] at used
      cases used
    simp only [Function.update_of_ne ne, used, and_self]
  · by_cases here : i = idx
    · simp [here]
    · simp [Function.update_of_ne here, unused']

/-- The index 0 stays with the root. -/
theorem Tree.slot_ne_root (h : Tree s kids depth) (next : Fs.nextSlot s.used s.nextIdx = some idx) :
    idx ≠ rootIdx := by
  rintro rfl
  unfold Fs.nextSlot at next
  by_cases room : s.nextIdx < maxFiles
  · rw [dif_pos room] at next
    have eq : s.nextIdx = 0 := congrArg Fin.val (Option.some.inj next)
    have pos := h.next_pos
    omega
  · rw [dif_neg room] at next
    simpa using List.find?_some next

/-- What `set_node` does: nothing without a free node, else there is a new node. -/
theorem Tree.setNode_cases (h : Tree s kids depth) (dir : s.ntypes p = some .directory) {n : Nat}
    (fresh : s.Fresh (n + 1)) :
    (Fs.nextSlot s.used s.nextIdx = none ∧ Fs.setNode name ntype p s = .ok none s) ∨
      ∃ idx : Idx, s.ntypes idx = none ∧ idx ≠ rootIdx ∧
        Fs.setNode name ntype p s =
          .ok (some idx) (Fileagent.planted { s with nextIdx := idx + 1 } idx name ntype p (kids p)) ∧
        (Fileagent.planted { s with nextIdx := idx + 1 } idx name ntype p (kids p)).Fresh n := by
  cases next : Fs.nextSlot s.used s.nextIdx with
  | none =>
    refine .inl ⟨rfl, ?_⟩
    simp only [Fs.setNode, Prog.bind_apply, allocIdx_none next]
    rfl
  | some idx =>
    obtain ⟨free, later⟩ := fresh.slot next
    refine .inr ⟨idx, free, h.slot_ne_root next, setNode_ok h free dir (allocIdx_some next) rfl, ?_⟩
    unfold Fs.Fresh
    rwa [planted_used, planted_nextIdx]

/-- The new node is in the tree, and it has no children. -/
theorem Tree.setNode (h : Tree s kids depth) (dir : s.ntypes p = some .directory) {n : Nat}
    (fresh : s.Fresh (n + 1)) :
    Fs.setNode name ntype p s = .ok none s ∨ ∃ idx s', Fs.setNode name ntype p s = .ok (some idx) s' ∧
      (∃ kids' depth', Tree s' kids' depth' ∧ kids' idx = []) ∧ s'.ntypes idx = some ntype ∧
        s'.Fresh n ∧ Grows s s' := by
  rcases h.setNode_cases dir fresh with ⟨_, run⟩ | ⟨idx, free, ne_root, run, later⟩
  · exact .inl run
  · have ne : idx ≠ p := by
      rintro rfl
      rw [free] at dir
      cases dir
    refine .inr ⟨idx, _, run, ⟨_, _, h.planted free ne_root dir (by omega), ?_⟩, ?_, later,
      grows_planted free⟩
    · rw [Function.update_of_ne ne]
      exact h.free_kids free
    · rw [planted_ntypes, Function.update_self]

/-- `create` in a directory that has no child of the name. -/
theorem create_eq (dir : s.ntypes p = some .directory) (new : s.childNamed p name = some none) :
    Fs.create ntype p.val name s = Fs.setNode name ntype p s := by
  simp only [Fs.create, index?_val, Prog.bind_apply, Prog.get, dir, ne_eq, not_true_eq_false, if_false,
    look, Fs.findChild, new]

end Create

end CapsuleOS.Fileagent
