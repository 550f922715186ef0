import CapsuleOS.Fileagent.Removal

/-!
# Created paths resolve

A name is stored cut to 63 bytes, but looked up whole; and `create_file_path` takes what is behind the last
slash for the name, also if that is nothing, while `resolve` skips empty components. Names that are stored
whole and have at least one byte are found again.
-/
namespace CapsuleOS.Fileagent

open Lib

namespace FsOp

/-- The call makes its nodes along a path, not below a node that is given. -/
def byPath : FsOp → Bool
  | .mkdirPath _ => true
  | .createFilePath _ => true
  | _ => false

/-- New nodes get free indices, and names with at least one byte that no sibling has as they are stored; along
a path they are stored whole. -/
structure Fits (s : Fs) (op : FsOp) : Prop extends op.Apart s where
  some_byte : ∀ at_p ∈ op.makes s, ∀ name ∈ at_p.2, name ≠ []
  whole : op.byPath = true → ∀ at_p ∈ op.makes s, ∀ name ∈ at_p.2, name.length < maxName

instance (s : Fs) (op : FsOp) : Decidable (op.Fits s) :=
  decidable_of_iff (op.Apart s ∧ (∀ at_p ∈ op.makes s, ∀ name ∈ at_p.2, name ≠ []) ∧
    (op.byPath = true → ∀ at_p ∈ op.makes s, ∀ name ∈ at_p.2, name.length < maxName))
    ⟨fun h => ⟨h.1, h.2.1, h.2.2⟩, fun h => ⟨h.toApart, h.some_byte, h.whole⟩⟩

end FsOp

namespace RamOp

def Fits (s : Fs) : RamOp → Prop
  | .tree op => op.Fits s
  | .write _ _ _ => True

instance (s : Fs) : (op : RamOp) → Decidable (op.Fits s)
  | .tree op => inferInstanceAs (Decidable (op.Fits s))
  | .write _ _ _ => inferInstanceAs (Decidable True)

theorem Fits.apart {s : Fs} {op : RamOp} (fits : op.Fits s) : op.Apart s := by
  cases op with
  | tree op => exact FsOp.Fits.toApart fits
  | write idx data offset => trivial

end RamOp

/-- Every node in use has a name. -/
def Fs.Named (s : Fs) : Prop := ∀ i, s.ntypes i ≠ none → s.names i ≠ []

/-- The children of every node are finitely many, and have different names that are not empty. -/
structure Siblings (s : Fs) (kids : Idx → List Idx) : Prop where
  links : ∀ p, Links.Path s.nextSibling (s.firstChild p) (kids p) none
  distinct : ∀ p, ((kids p).map s.names).Nodup
  some_byte : ∀ p, ∀ c ∈ kids p, s.names c ≠ []

section Created

variable {s s' : Fs} {kids : Idx → List Idx} {depth : Idx → Nat} {path : List UInt8} {i : Idx}

theorem Fs.Named.step (h : s.Named) (tidy : Tidy s kids depth) {op : RamOp} (fits : op.Fits s)
    (step : RamOp.system.Steps op s s') : s'.Named := by
  cases op with
  | write idx data offset =>
    rcases RamOp.write_ends step with rfl | ⟨i, _, rfl⟩
    · exact h
    · exact h
  | tree op =>
    have fits : op.Fits s := fits
    rcases op.step_cases tidy.toTree fits.meets step.ran with
      rfl | ⟨ntype, p, made, left, kids', d, at_p, grafted⟩ | ⟨p, c, xs, ys, list, leaf, rfl⟩
    · exact h
    · obtain ⟨more, makes⟩ := grafted.makes at_p
      exact grafted.named h fun n mem => fits.some_byte _ makes n (List.mem_append_left _ mem)
    · intro i live
      have ne : i ≠ c := by
        rintro rfl
        exact live (by rw [unlink_ntypes, Function.update_self])
      rw [unlink_ntypes, Function.update_of_ne ne] at live
      rw [unlink_names, Function.update_of_ne ne]
      exact h i live

theorem tidy_named_run (run : RamOp.system.Run RamOp.Fits .start s) : s.IsTidy ∧ s.Named := by
  refine run.invariant (I := fun s => s.IsTidy ∧ s.Named) ⟨start_isTidy, fun i live => ?_⟩
    fun op u u' inv fits step => ?_
  · have root : i = rootIdx := by
      by_contra ne
      exact live (Function.update_of_ne ne _ _)
    rw [root]
    decide
  · obtain ⟨tidy, named⟩ := inv
    refine ⟨tidy.step fits.apart step, ?_⟩
    obtain ⟨kids, depth, tidy⟩ := tidy
    exact named.step tidy fits step

/-- The directory that `mkdir_path` was asked for. -/
theorem Tidy.mkdirPath_resolves (h : Tidy s kids depth) (fits : (FsOp.mkdirPath path).Fits s)
    (run : Fs.mkdirPath path s = .ok () s') :
    ∃ d, s'.resolve path = some (some d) ∧ s'.ntypes d = some .directory := by
  rcases mkdirPath_grafts h.toTree fits.meets with
    ⟨_, ⟨nothing, out⟩ | ⟨e, out⟩⟩ |
      ⟨walked, made, left, p, u, kids', d, at_p, split, walk, dir, missing, grafted, ⟨rfl, out⟩ | ⟨_, out, _⟩⟩ <;>
    rw [out] at run <;> cases run
  · refine ⟨rootIdx, ?_, h.root_dir⟩
    rw [h.toTree.resolve_eq, nothing]
    rfl
  · obtain ⟨depth', tree'⟩ := grafted.tree h.toTree
    obtain ⟨more, makes⟩ := grafted.makes at_p
    rw [List.append_nil] at split missing
    have whole : ∀ n ∈ made, n.length < maxName := fun n mem =>
      fits.whole rfl _ makes n (List.mem_append_left _ mem)
    refine ⟨d, ?_, grafted.dir_last dir⟩
    rw [tree'.resolve_eq, split, grafted.leads h.toTree whole missing walk]

/-- The file that `create_file_path` made. -/
theorem Tidy.createFilePath_resolves (h : Tidy s kids depth) (fits : (FsOp.createFilePath path).Fits s)
    (run : Fs.createFilePath path s = .ok (some i) s') : s'.resolve path = some (some i) := by
  rcases createFilePath_grafts h.toTree fits.meets with
    out | ⟨p, name, idx, u, kids', at_p, leads, missing, out, grafted⟩ <;> rw [out] at run <;> cases run
  obtain ⟨depth', tree'⟩ := grafted.tree h.toTree
  obtain ⟨more, makes⟩ := grafted.makes (List.append_nil [name] ▸ at_p)
  have whole : ∀ n ∈ [name], n.length < maxName := fun n mem =>
    fits.whole rfl _ makes n (List.mem_append_left _ mem)
  obtain ⟨walked, split, walk⟩ := leads (fits.some_byte _ makes name List.mem_cons_self)
  rw [tree'.resolve_eq, split, grafted.leads h.toTree whole (fun n first => ?_) walk]
  obtain rfl : name = n := Option.some.inj first
  exact missing

/-- A path keeps its node in a call that removes nothing. -/
theorem Tidy.resolves_still (h : Tidy s kids depth) {op : FsOp} (meets : op.Meets s)
    (creates : ∀ parent child, op ≠ .remove parent child) (ended : (op.perform s).Ends s')
    (found : s.resolve path = some (some i)) : s'.resolve path = some (some i) := by
  rcases op.grafts h.toTree meets creates ended with rfl | ⟨ntype, p, made, left, kids', d, at_p, grafted⟩
  · exact found
  · obtain ⟨depth', tree'⟩ := grafted.tree h.toTree
    rw [h.toTree.resolve_eq] at found
    rw [tree'.resolve_eq, grafted.walks h.toTree (Option.some.inj found)]

end Created

/-- What creation is to keep to in a state, for the calls that meet `fits` there. -/
structure Resolves (fits : Fs → FsOp → Prop) (s : Fs) : Prop where
  siblings : ∃ kids, Siblings s kids
  mkdir : ∀ path s', fits s (.mkdirPath path) → Fs.mkdirPath path s = .ok () s' →
    ∃ d, s'.resolve path = some (some d) ∧ s'.ntypes d = some .directory
  file : ∀ path i s', fits s (.createFilePath path) → Fs.createFilePath path s = .ok (some i) s' →
    s'.resolve path = some (some i)
  still : ∀ op s', fits s op → (∀ parent child, op ≠ .remove parent child) → FsOp.system.Steps op s s' →
    ∀ path i, s.resolve path = some (some i) → s'.resolve path = some (some i)

/-- In every state that is reached with calls whose new nodes get free indices and fitting names: siblings have
different names that are not empty, what such a call makes is found under its path, and no path that led to a
node leads elsewhere after a call that makes nodes. -/
theorem created_resolve {s : Fs} (run : RamOp.system.Run RamOp.Fits .start s) : Resolves FsOp.Fits s := by
  obtain ⟨⟨kids, depth, tidy⟩, named⟩ := tidy_named_run run
  exact ⟨⟨kids, tidy.path, tidy.distinct, fun p c mem => named c (tidy.live p c mem)⟩,
    fun _ _ fits out => tidy.mkdirPath_resolves fits out,
    fun _ _ _ fits out => tidy.createFilePath_resolves fits out,
    fun _ _ fits creates step _ _ found => tidy.resolves_still fits.meets creates step.ran found⟩

theorem created_resolve_planted : Resolves FsOp.Fits plantedFs.fs := by
  have follows : RamOp.system.Follows RamOp.Fits .start planting :=
    ⟨by decide +kernel, trivial, by decide +kernel, by decide +kernel, trivial, by decide +kernel,
      by decide +kernel, trivial, by decide +kernel, by decide +kernel, trivial, by decide +kernel,
      by decide +kernel, trivial, by decide +kernel, trivial⟩
  have run : RamOp.system.Run RamOp.Fits .start plantedFs.fs := Stepper.Run.start.follow follows
  exact created_resolve run

/-- One byte more than a name can have. -/
def longName : List UInt8 := List.replicate 64 97

/-- The file gets what is behind the last slash for a name. -/
def noName : Fs := RamOp.system.after .start [.tree (.createFilePath [slash, slash])]

/-- A directory with a long name is not found, and a trailing slash makes a file without a name. -/
theorem created_lost : ¬Resolves (fun _ _ => True) .start ∧
    RamOp.system.Run (fun _ _ => True) .start noName ∧ ¬Resolves (fun _ _ => True) noName := by
  refine ⟨fun resolves => ?_, Stepper.Run.start.follow ⟨trivial, trivial, by decide +kernel, trivial⟩,
    fun resolves => ?_⟩
  · have made : (Fs.mkdirPath longName .start).value? = some () := by decide +kernel
    obtain ⟨d, found, _⟩ := resolves.mkdir longName _ trivial (Outcome.eq_ok_of_value? made)
    have lost : (Fs.mkdirPath longName .start).state.resolve longName = some none := by decide +kernel
    rw [lost] at found
    cases found
  · obtain ⟨kids, named⟩ := resolves.siblings
    have first : noName.firstChild rootIdx = some ⟨1, by decide⟩ := by decide +kernel
    have mem : ⟨1, by decide⟩ ∈ kids rootIdx := by
      have head := (named.links rootIdx).start
      rw [first] at head
      exact List.mem_of_head? head.symm
    exact named.some_byte rootIdx _ mem (by decide +kernel)

end CapsuleOS.Fileagent
