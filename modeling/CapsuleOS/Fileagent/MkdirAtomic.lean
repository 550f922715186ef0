import CapsuleOS.Fileagent.Grafts

/-!
# When `mkdir_path` is all or nothing

A component of the wrong type and a path that exists are found before a directory is made. A lack of nodes is
found when the directories in front are there already, and nothing takes them back.
-/
namespace CapsuleOS.Fileagent

open Lib

/-- An error leaves the nodes in use and the paths as they were. -/
def Atomic (s : Fs) (path : List UInt8) : Prop :=
  ∀ e s', Fs.mkdirPath path s = .err e s' → s'.used = s.used ∧ ∀ other, s'.resolve other = s.resolve other

def RamOp.Meets (s : Fs) : RamOp → Prop
  | .tree op => op.Meets s
  | .write _ _ _ => True

section Atomicity

variable {s s' : Fs} {path : List UInt8}

theorem Fs.IsTree.ramStep (h : s.IsTree) {op : RamOp} (meets : op.Meets s)
    (step : RamOp.system.Steps op s s') : s'.IsTree := by
  cases op with
  | tree op => exact step.ran.state_eq ▸ (h.step meets).state.1
  | write idx data offset =>
    obtain ⟨kids, depth, tree⟩ := h
    rcases RamOp.write_ends step with rfl | ⟨i, _, rfl⟩
    · exact ⟨kids, depth, tree⟩
    · exact ⟨kids, depth, { tree with }⟩

theorem isTree_ramRun (run : RamOp.system.Run RamOp.Meets .start s) : s.IsTree :=
  run.invariant start_isTree fun _ _ _ tree meets step => tree.ramStep meets step

theorem freeNodes_eq : s.freeNodes = (Finset.univ.filter fun i => i ≠ rootIdx ∧ s.used i = false).card := by
  unfold Fs.freeNodes Fs.used
  congr 1
  ext i
  simp

/-- An index is refused only where none is free. -/
theorem freeNodes_of_nextSlot (full : Fs.nextSlot s.used s.nextIdx = none) : s.freeNodes = 0 := by
  unfold Fs.nextSlot at full
  split_ifs at full
  rw [freeNodes_eq, Finset.card_eq_zero, Finset.filter_eq_empty_iff]
  intro i _ free
  exact absurd (decide_eq_true free) (List.find?_eq_none.mp full i (List.mem_finRange i))

/-- In every state that is reached with each new node on a free index: `mkdir_path` is all or nothing exactly if
there are enough free nodes for the missing components, or none at all. -/
theorem atomic_iff (run : RamOp.system.Run RamOp.Meets .start s) (meets : (FsOp.mkdirPath path).Meets s) :
    Atomic s path ↔ (FsOp.mkdirPath path).adds s ≤ s.freeNodes ∨ s.freeNodes = 0 := by
  obtain ⟨kids, depth, tree⟩ := isTree_ramRun run
  have same (unchanged : ∀ e s', Fs.mkdirPath path s = .err e s' → s' = s) : Atomic s path := fun e s' out => by
    rw [unchanged e s' out]
    exact ⟨rfl, fun _ => rfl⟩
  rcases mkdirPath_grafts tree meets with
    ⟨nowhere, out⟩ | ⟨_, made, left, p, s', kids', d, at_p, _, _, _, _, grafted, ⟨rfl, out⟩ | ⟨short, out, full⟩⟩
  · have none_new : (FsOp.mkdirPath path).adds s = 0 := by rw [FsOp.adds_eq, nowhere]; rfl
    refine iff_of_true (same fun e s' failed => ?_) (.inl (none_new ▸ Nat.zero_le _))
    rcases out with ⟨_, out⟩ | ⟨_, out⟩ <;> rw [out] at failed <;> cases failed
    rfl
  · have count := grafted.freeNodes
    have new : (FsOp.mkdirPath path).adds s = made.length := by rw [FsOp.adds_eq, at_p]; simp
    refine iff_of_true (same fun e s' failed => ?_) (.inl (by omega))
    rw [out] at failed
    cases failed
  · have count := grafted.freeNodes
    rw [freeNodes_of_nextSlot full, Nat.zero_add] at count
    have new : (FsOp.mkdirPath path).adds s = made.length + left.length := by rw [FsOp.adds_eq, at_p]; simp
    have missing := List.length_pos_iff.mpr short
    constructor
    · intro atomic
      have used := (atomic _ _ out).1
      have still : s'.freeNodes = s.freeNodes := by rw [freeNodes_eq, used, ← freeNodes_eq]
      exact .inr (still.symm.trans (freeNodes_of_nextSlot full))
    · intro enough
      obtain rfl : made = [] := List.length_eq_zero_iff.mp (by omega)
      cases grafted
      refine same fun e s' failed => ?_
      rw [out] at failed
      cases failed
      rfl

/-- Below a state that is reached with each new node on a free index. An error other than for a lack of nodes
changes nothing; an error for a lack of nodes changes nothing exactly if there was no free node. What was there
stays, with all its paths. -/
theorem mkdirPath_errors (run : RamOp.system.Run RamOp.Meets .start s) (meets : (FsOp.mkdirPath path).Meets s) :
    (Atomic s path ↔ (FsOp.mkdirPath path).adds s ≤ s.freeNodes ∨ s.freeNodes = 0) ∧
      ∀ e s', Fs.mkdirPath path s = .err e s' → (e ≠ .noMemory ∨ s.freeNodes = 0 → s' = s) ∧
        (∀ i, s.ntypes i ≠ none → s'.ntypes i = s.ntypes i) ∧
        ∀ other i, s.resolve other = some (some i) → s'.resolve other = some (some i) := by
  refine ⟨atomic_iff run meets, fun e s' failed => ?_⟩
  obtain ⟨kids, depth, tree⟩ := isTree_ramRun run
  rcases mkdirPath_grafts tree meets with
    ⟨_, ⟨_, out⟩ | ⟨_, out⟩⟩ | ⟨_, made, left, p, u, kids', d, _, _, _, _, _, grafted, ⟨_, out⟩ | ⟨_, out, _⟩⟩ <;>
    rw [out] at failed <;> cases failed
  · exact ⟨fun _ => rfl, fun _ _ => rfl, fun _ _ => id⟩
  · refine ⟨fun unchanged => ?_, fun i live => grafted.types live, fun other i found => ?_⟩
    · have none_free : s.freeNodes = 0 := unchanged.resolve_left (not_not.mpr rfl)
      have count := grafted.freeNodes
      obtain rfl : made = [] := List.length_eq_zero_iff.mp (by omega)
      cases grafted
      rfl
    · obtain ⟨depth', tree'⟩ := grafted.tree tree
      rw [tree.resolve_eq] at found
      rw [tree'.resolve_eq, grafted.walks tree (Option.some.inj found)]

end Atomicity

/-- A path of directories that are all called a. -/
def chain (n : Nat) : List UInt8 := (List.replicate n [97, slash]).flatten ++ [97]

/-- One node is left. -/
def almostFull : Fs := RamOp.system.after .start [.tree (.mkdirPath (chain 13))]

theorem almostFull_reached : RamOp.system.Run RamOp.Meets .start almostFull := by
  have meets : (FsOp.mkdirPath (chain 13)).Meets .start := by decide +kernel
  exact Stepper.Run.start.follow ⟨meets, trivial, by decide +kernel, trivial⟩

/-- Two directories, one in the other. -/
def twoNew : List UInt8 := [120, slash, 121]

theorem mkdirPath_errors_almostFull :
    (Atomic almostFull twoNew ↔
      (FsOp.mkdirPath twoNew).adds almostFull ≤ almostFull.freeNodes ∨ almostFull.freeNodes = 0) ∧
    ∀ e s', Fs.mkdirPath twoNew almostFull = .err e s' →
      (e ≠ .noMemory ∨ almostFull.freeNodes = 0 → s' = almostFull) ∧
      (∀ i, almostFull.ntypes i ≠ none → s'.ntypes i = almostFull.ntypes i) ∧
      ∀ other i, almostFull.resolve other = some (some i) → s'.resolve other = some (some i) :=
  mkdirPath_errors almostFull_reached (by decide +kernel)

/-- All nodes are in use, and the next index to be given out is 2. -/
def wrappedFull : Fs := RamOp.system.after .start
  [.tree (.createFile 0 [120]), .tree (.mkdirPath (chain 13)), .tree (.remove 0 1), .tree (.createFile 0 [121])]

theorem wrappedFull_reached : RamOp.system.Run (fun _ _ => True) .start wrappedFull := by
  have follows : RamOp.system.Follows (fun _ _ => True) .start
      [.tree (.createFile 0 [120]), .tree (.mkdirPath (chain 13)), .tree (.remove 0 1), .tree (.createFile 0 [121])] :=
    ⟨trivial, trivial, by decide +kernel, trivial, trivial, by decide +kernel, trivial, trivial,
      by decide +kernel, trivial, trivial, by decide +kernel, trivial⟩
  exact Stepper.Run.start.follow follows

/-- The directory x stays when there is no node for y. And a long path takes the indices of nodes in use before
there is no node for it. -/
theorem mkdir_not_atomic :
    (RamOp.system.Run (fun _ _ => True) .start almostFull ∧ ¬Atomic almostFull twoNew) ∧
      RamOp.system.Run (fun _ _ => True) .start wrappedFull ∧ ¬Atomic wrappedFull (98 :: slash :: chain 13) := by
  refine ⟨⟨almostFull_reached.mono fun _ _ _ => trivial, fun atomic => ?_⟩, wrappedFull_reached, fun atomic => ?_⟩
  · have failed : (Fs.mkdirPath twoNew almostFull).error? = some .noMemory := by decide +kernel
    have used := (atomic _ _ (Outcome.eq_err_of_error? failed)).1
    have taken : (Fs.mkdirPath twoNew almostFull).state.used ⟨15, by decide⟩ = true := by decide +kernel
    have free : almostFull.used ⟨15, by decide⟩ = false := by decide +kernel
    rw [used, free] at taken
    cases taken
  · have failed : (Fs.mkdirPath (98 :: slash :: chain 13) wrappedFull).error? = some .noMemory := by
      decide +kernel
    have same := (atomic _ _ (Outcome.eq_err_of_error? failed)).2 [97]
    have before : wrappedFull.resolve [97] = some (some ⟨2, by decide⟩) := by decide +kernel
    have lost : (Fs.mkdirPath (98 :: slash :: chain 13) wrappedFull).state.resolve [97] = none := by
      decide +kernel
    rw [lost, before] at same
    cases same

end CapsuleOS.Fileagent
