import CapsuleOS.Fileagent.Contents
import CapsuleOS.Lib.NameTree

/-!
# Paths as walks

The nodes of a tree and their names are a `NameTree`, and `resolve` is a walk in it along the components of
the path. The components are read off the path at its slashes; `create_file_path` cuts at the last one.
-/
namespace CapsuleOS.Fileagent

open Lib

def Fs.nameTree (s : Fs) (kids : Idx → List Idx) : NameTree Idx (List UInt8) := ⟨kids, s.names⟩

/-! ## Components -/

namespace Fs

variable {path name : List UInt8}

theorem components_append (xs ys : List UInt8) :
    components (xs ++ slash :: ys) = components xs ++ components ys := by
  rw [components, List.splitOn_append_cons_self, List.filter_append]
  rfl

@[simp] theorem components_nil : components [] = [] := rfl

theorem components_clean : components (clean path) = components path := by
  cases path with
  | nil => rfl
  | cons b path =>
    by_cases lead : b = slash
    · subst lead
      exact (components_append [] path).symm
    · rw [clean, if_neg lead]

theorem components_name (no_slash : slash ∉ name) (some_byte : name ≠ []) : components name = [name] := by
  rw [components, List.splitOn_eq_singleton no_slash]
  simp [some_byte]

theorem splitLast_eq (h : slash ∈ path) :
    path = (splitLast path).1 ++ slash :: (splitLast path).2 ∧ slash ∉ (splitLast path).2 := by
  obtain ⟨last, rest, backwards, away⟩ := List.eq_append_cons_of_mem (List.mem_reverse.mpr h)
  have pos : ∀ b ∈ last, decide (b ≠ slash) = true := fun b mem =>
    decide_eq_true fun eq : b = slash => away (eq ▸ mem)
  have split : splitLast path = (rest.reverse, last.reverse) := by
    rw [splitLast, backwards, List.takeWhile_append_of_pos pos, List.dropWhile_append_of_pos pos]
    simp
  rw [split]
  refine ⟨?_, by simpa using away⟩
  rw [← List.reverse_reverse path, backwards]
  simp

end Fs

/-! ## Resolution -/

section Resolve

variable {s : Fs} {kids : Idx → List Idx} {depth : Idx → Nat} {path : List UInt8}

theorem Tree.child_eq (h : Tree s kids depth) (p : Idx) (name : List UInt8) :
    s.childNamed p name = some ((s.nameTree kids).child p name) := h.childNamed p name

theorem Tree.resolveFrom_eq (h : Tree s kids depth) (cs : List (List UInt8)) (cur : Idx) :
    s.resolveFrom cs cur = some ((s.nameTree kids).walk cs cur) := by
  induction cs generalizing cur with
  | nil => rfl
  | cons c cs ih =>
    simp only [Fs.resolveFrom, h.child_eq cur c, Option.bind_eq_bind, Option.bind_some, NameTree.walk]
    cases (s.nameTree kids).child cur c with
    | none => rfl
    | some found => exact ih found

theorem Tree.resolve_eq (h : Tree s kids depth) (path : List UInt8) :
    s.resolve path = some ((s.nameTree kids).walk (Fs.components path) rootIdx) := by
  unfold Fs.resolve
  rw [h.root_eq]
  split_ifs with nothing
  · rw [← Fs.components_clean, nothing]
    rfl
  · exact (h.resolveFrom_eq _ _).trans (by rw [Fs.components_clean])

end Resolve

end CapsuleOS.Fileagent
