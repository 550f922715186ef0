import Mathlib.Tactic

/-!
# Trees of named nodes

Every node has a list of children and a name. `walk` follows names from a node down, and takes the first
child of each name. A new last child hides no node from the walks, and where siblings have different names,
a leaf that is taken out ends just the walks that led to it.
-/
namespace CapsuleOS.Lib

structure NameTree (ι ν : Type) where
  kids : ι → List ι
  name : ι → ν

namespace NameTree

variable {ι ν : Type} {p q c d cur : ι} {n m : ν} {ns ms : List ν}

/-- Siblings have different names. -/
def Distinct (t : NameTree ι ν) : Prop := ∀ p, ((t.kids p).map t.name).Nodup

section Walks

variable [DecidableEq ν] {t : NameTree ι ν}

def child (t : NameTree ι ν) (p : ι) (n : ν) : Option ι := (t.kids p).find? (t.name · = n)

def walk (t : NameTree ι ν) : List ν → ι → Option ι
  | [], cur => some cur
  | n :: ns, cur => (t.child cur n).bind (t.walk ns)

theorem child_mem (h : t.child p n = some c) : c ∈ t.kids p ∧ t.name c = n := by
  refine ⟨List.mem_of_find?_eq_some h, ?_⟩
  simpa using List.find?_some h

theorem child_eq_none : t.child p n = none ↔ n ∉ (t.kids p).map t.name := by
  simp only [child, List.find?_eq_none, decide_eq_true_eq, List.mem_map, not_exists, not_and]

theorem Distinct.child_eq (h : t.Distinct) (mem : c ∈ t.kids p) : t.child p (t.name c) = some c := by
  cases found : t.child p (t.name c) with
  | none => exact absurd (List.mem_map_of_mem mem) (child_eq_none.mp found)
  | some d =>
    obtain ⟨mem', same⟩ := child_mem found
    rw [List.inj_on_of_nodup_map (h p) mem' mem same]

theorem walk_append : t.walk (ns ++ ms) cur = (t.walk ns cur).bind (t.walk ms) := by
  induction ns generalizing cur with
  | nil => rfl
  | cons n ns ih =>
    simp only [List.cons_append, walk, Option.bind_assoc]
    exact congrArg _ (funext fun _ => ih)

@[simp] theorem walk_singleton : t.walk [n] cur = t.child cur n := by
  simp only [walk, Option.bind_fun_some]

/-- A walk ends where it begins, or at a child. -/
theorem walk_mem (found : t.walk ns cur = some d) : d = cur ∨ ∃ q, d ∈ t.kids q := by
  induction ns generalizing cur with
  | nil => exact .inl (Option.some.inj found).symm
  | cons n ns ih =>
    obtain ⟨next, first, rest⟩ := Option.bind_eq_some_iff.mp found
    rcases ih rest with rfl | below
    · exact .inr ⟨cur, (child_mem first).1⟩
    · exact .inr below

end Walks

/-! ## A new child -/

section Insert

variable [DecidableEq ι] {t : NameTree ι ν}

/-- The node is the last child of `p`, under the name. -/
def insert (t : NameTree ι ν) (p c : ι) (n : ν) : NameTree ι ν :=
  ⟨Function.update t.kids p (t.kids p ++ [c]), Function.update t.name c n⟩

theorem kids_insert : (t.insert p c n).kids q = if q = p then t.kids q ++ [c] else t.kids q := by
  by_cases here : q = p
  · subst here
    simp [insert]
  · simp [insert, here]

@[simp] theorem name_insert_self : (t.insert p c n).name c = n := Function.update_self _ _ _

variable (away : ∀ q, c ∉ t.kids q)

include away

theorem name_insert (mem : d ∈ t.kids q) : (t.insert p c n).name d = t.name d :=
  Function.update_of_ne (fun eq : d = c => away q (eq ▸ mem)) _ _

theorem names_insert : ((t.insert p c n).kids q).map (t.insert p c n).name =
    (t.kids q).map t.name ++ if q = p then [n] else [] := by
  have old : (t.kids q).map (t.insert p c n).name = (t.kids q).map t.name :=
    List.map_congr_left fun x mem => name_insert away mem
  rw [kids_insert]
  split_ifs
  · rw [List.map_append, old, List.map_singleton, name_insert_self]
  · rw [old, List.append_nil]

theorem child_insert [DecidableEq ν] : (t.insert p c n).child q m =
    (t.child q m).or (if q = p ∧ n = m then some c else none) := by
  have old : (t.kids q).find? ((t.insert p c n).name · = m) = t.child q m := by
    unfold child
    refine List.find?_congr fun x mem => ?_
    rw [name_insert away mem]
  rw [child, kids_insert]
  by_cases here : q = p
  · rw [if_pos here, List.find?_append, old]
    congr 1
    by_cases same : n = m <;> simp [here, same]
  · rw [if_neg here, old, if_neg fun both => here both.1, Option.or_none]

theorem walk_insert [DecidableEq ν] (found : t.walk ns cur = some d) :
    (t.insert p c n).walk ns cur = some d := by
  induction ns generalizing cur with
  | nil => exact found
  | cons m ms ih =>
    obtain ⟨next, first, rest⟩ := Option.bind_eq_some_iff.mp found
    rw [walk, child_insert away, first, Option.some_or, Option.bind_some]
    exact ih rest

/-- The walk to the new child. -/
theorem walk_insert_new [DecidableEq ν] (found : t.walk ns cur = some p) (missing : t.child p n = none) :
    (t.insert p c n).walk (ns ++ [n]) cur = some c := by
  rw [walk_append, walk_insert away found, Option.bind_some, walk_singleton, child_insert away, missing,
    Option.none_or, if_pos ⟨rfl, rfl⟩]

theorem Distinct.insert (h : t.Distinct) (new : n ∉ (t.kids p).map t.name) :
    (t.insert p c n).Distinct := by
  intro q
  rw [names_insert away]
  split_ifs with here
  · subst here
    refine List.nodup_append.mpr ⟨h q, List.nodup_singleton n, fun a mem b last => ?_⟩
    rw [List.mem_singleton.mp last]
    exact fun same => new (same ▸ mem)
  · rw [List.append_nil]
    exact h q

end Insert

/-! ## A child that goes -/

section Erase

variable [DecidableEq ι] {t : NameTree ι ν}

/-- The node is no child of `p`, and has another name. -/
def erase (t : NameTree ι ν) (p c : ι) (n : ν) : NameTree ι ν :=
  ⟨Function.update t.kids p ((t.kids p).filter (· ≠ c)), Function.update t.name c n⟩

theorem name_erase (ne : d ≠ c) : (t.erase p c n).name d = t.name d := Function.update_of_ne ne _ _

variable (only : ∀ q ≠ p, c ∉ t.kids q)

include only

theorem kids_erase : (t.erase p c n).kids q = (t.kids q).filter (· ≠ c) := by
  by_cases here : q = p
  · subst here
    exact Function.update_self _ _ _
  · have all : ∀ x ∈ t.kids q, decide (x ≠ c) = true := fun x mem =>
      decide_eq_true fun eq : x = c => only q here (eq ▸ mem)
    rw [List.filter_eq_self.mpr all]
    exact Function.update_of_ne here _ _

theorem mem_kids_erase : d ∈ (t.erase p c n).kids q ↔ d ∈ t.kids q ∧ d ≠ c := by
  rw [kids_erase only, List.mem_filter, decide_eq_true_eq]

theorem names_erase : (((t.erase p c n).kids q).map (t.erase p c n).name).Sublist
    ((t.kids q).map t.name) := by
  have names : ((t.erase p c n).kids q).map (t.erase p c n).name = ((t.erase p c n).kids q).map t.name :=
    List.map_congr_left fun x mem => name_erase ((mem_kids_erase only).mp mem).2
  rw [names, kids_erase only]
  exact List.filter_sublist.map _

theorem Distinct.erase (h : t.Distinct) : (t.erase p c n).Distinct := fun q =>
  (names_erase only).nodup (h q)

variable [DecidableEq ν]

theorem child_erase (h : t.Distinct) : (t.erase p c n).child q m = (t.child q m).filter (· ≠ c) := by
  cases found : t.child q m with
  | none =>
    rw [Option.filter_none, child_eq_none]
    exact fun mem => child_eq_none.mp found ((names_erase only).subset mem)
  | some d =>
    obtain ⟨mem, rfl⟩ := child_mem found
    by_cases gone : d = c
    · subst gone
      rw [Option.filter_some_neg (by simp), child_eq_none]
      intro mem'
      obtain ⟨x, mem', same⟩ := List.mem_map.mp mem'
      obtain ⟨old, ne⟩ := (mem_kids_erase only).mp mem'
      rw [name_erase ne] at same
      exact ne (List.inj_on_of_nodup_map (h q) old mem same)
    · have there : (t.erase p c n).child q ((t.erase p c n).name d) = some d :=
        (h.erase only).child_eq ((mem_kids_erase only).mpr ⟨mem, gone⟩)
      rw [name_erase gone] at there
      rw [there, Option.filter_some_pos (by simpa using gone)]

/-- The walks without those that led to the leaf. -/
theorem walk_erase (h : t.Distinct) (leaf : t.kids c = []) (ne : cur ≠ c) :
    (t.erase p c n).walk ns cur = (t.walk ns cur).filter (· ≠ c) := by
  induction ns generalizing cur with
  | nil => exact (Option.filter_some_pos (by simpa using ne)).symm
  | cons m ms ih =>
    rw [walk, walk, child_erase only h]
    cases found : t.child cur m with
    | none => rfl
    | some d =>
      by_cases gone : d = c
      · subst gone
        rw [Option.filter_some_neg (by simp), Option.bind_none, Option.bind_some]
        cases ms with
        | nil => exact (Option.filter_some_neg (by simp)).symm
        | cons k ks =>
          have below : t.child d k = none := by rw [child, leaf, List.find?_nil]
          rw [walk, below]
          rfl
      · rw [Option.filter_some_pos (by simpa using gone), Option.bind_some, Option.bind_some]
        exact ih gone

end Erase

end NameTree

end CapsuleOS.Lib
