import Mathlib.Logic.Equiv.Basic
import Mathlib.Tactic

/-!
# Things in places

A map from places to what they hold, and the rearrangements of such maps. `Moved S f g` says that
`g` holds what `f` holds, moved around within `S`: nothing is lost, nothing appears, and nothing
outside `S` is touched.
-/
namespace CapsuleOS.Lib

variable {P X : Type}

/-- The place holds something that satisfies `q`. -/
def HoldsAt (f : P → Option X) (q : X → Prop) (p : P) : Prop := ∃ x, f p = some x ∧ q x

/-- Exactly one place holds something that satisfies `q`. -/
def HeldOnce (f : P → Option X) (q : X → Prop) : Prop := ∃! p, HoldsAt f q p

/-- A rearrangement within `S`. -/
def Moved (S : Set P) (f g : P → Option X) : Prop :=
  ∃ e : Equiv.Perm P, (∀ p, p ∉ S → e p = p) ∧ ∀ p, g (e p) = f p

namespace Moved

variable {S T : Set P} {f g h : P → Option X} {q : X → Prop}

theorem refl (S : Set P) (f : P → Option X) : Moved S f f := ⟨1, fun _ _ => rfl, fun _ => rfl⟩

theorem trans (hfg : Moved S f g) (hgh : Moved S g h) : Moved S f h := by
  obtain ⟨e, fix, eq⟩ := hfg
  obtain ⟨e', fix', eq'⟩ := hgh
  refine ⟨e.trans e', fun p out => ?_, fun p => ?_⟩
  · rw [Equiv.trans_apply, fix p out, fix' p out]
  · rw [Equiv.trans_apply, eq', eq]

theorem mono (h : Moved S f g) (sub : S ⊆ T) : Moved T f g := by
  obtain ⟨e, fix, eq⟩ := h
  exact ⟨e, fun p out => fix p fun mem => out (sub mem), eq⟩

theorem holdsAt_iff {e : Equiv.Perm P} (eq : ∀ p, g (e p) = f p) (p : P) :
    HoldsAt g q (e p) ↔ HoldsAt f q p := by simp [HoldsAt, eq]

theorem heldOnce (h : Moved S f g) (once : HeldOnce f q) : HeldOnce g q := by
  obtain ⟨e, _, eq⟩ := h
  obtain ⟨p, hp, unique⟩ := once
  refine ⟨e p, (holdsAt_iff eq p).mpr hp, fun p' hp' => ?_⟩
  have back : HoldsAt f q (e.symm p') := by
    rw [← holdsAt_iff eq, Equiv.apply_symm_apply]
    exact hp'
  rw [← unique _ back, Equiv.apply_symm_apply]

theorem outside (h : Moved S f g) {p : P} (out : p ∉ S) : g p = f p := by
  obtain ⟨e, fix, eq⟩ := h
  have at_p := eq p
  rwa [fix p out] at at_p

/-- What is held nowhere stays so. -/
theorem nowhere (h : Moved S f g) (none : ∀ p, ¬ HoldsAt f q p) (p : P) : ¬ HoldsAt g q p := by
  obtain ⟨e, _, eq⟩ := h
  intro hp
  have back := (holdsAt_iff (q := q) eq (e.symm p)).mp (by rwa [Equiv.apply_symm_apply])
  exact none _ back

end Moved

/-! ## One thing goes to an empty place -/

/-- `x` has gone from `a` to `b`, which was empty when it arrived. -/
structure Carried [DecidableEq P] (a b : P) (x : X) (f g : P → Option X) : Prop where
  source : f a = some x
  free : Function.update f a none b = none
  result : g = Function.update (Function.update f a none) b (some x)

namespace Carried

variable [DecidableEq P] {S : Set P} {a b : P} {x : X} {f g : P → Option X}

theorem arrives (h : Carried a b x f g) : g b = some x := by rw [h.result, Function.update_self]

theorem moved (h : Carried a b x f g) (mem : a ∈ S) (mem' : b ∈ S) : Moved S f g := by
  have free := h.free
  refine ⟨Equiv.swap a b, fun p out => ?_, fun p => ?_⟩
  · refine Equiv.swap_apply_of_ne_of_ne ?_ ?_
    · rintro rfl
      exact out mem
    · rintro rfl
      exact out mem'
  · rw [h.result]
    by_cases pa : p = a
    · subst pa
      rw [Equiv.swap_apply_left, Function.update_self, h.source]
    · by_cases pb : p = b
      · subst pb
        rw [Function.update_of_ne pa] at free
        rw [Equiv.swap_apply_right, Function.update_of_ne (Ne.symm pa), Function.update_self, free]
      · rw [Equiv.swap_apply_of_ne_of_ne pa pb, Function.update_of_ne pb, Function.update_of_ne pa]

/-- Everything else stays where it is. -/
theorem stays (h : Carried a b x f g) {p : P} {y : X} (hp : f p = some y) (ne : p ≠ a) :
    g p = some y := by
  have ne' : p ≠ b := by
    rintro rfl
    have free := h.free
    rw [Function.update_of_ne ne, hp] at free
    cases free
  rw [h.result, Function.update_of_ne ne', Function.update_of_ne ne, hp]

theorem leaves (h : Carried a b x f g) (ne : a ≠ b) : g a = none := by
  rw [h.result, Function.update_of_ne ne, Function.update_self]

theorem elsewhere (h : Carried a b x f g) {p : P} (ne : p ≠ a) (ne' : p ≠ b) : g p = f p := by
  rw [h.result, Function.update_of_ne ne', Function.update_of_ne ne]

end Carried

/-! ## Taking something away -/

section Removed

variable [DecidableEq P] {f : P → Option X} {q : X → Prop} {p : P} {x : X}

theorem HeldOnce.removed (once : HeldOnce f q) (hp : f p = some x) (hx : q x) (p' : P) :
    ¬ HoldsAt (Function.update f p none) q p' := by
  rintro ⟨y, hy, qy⟩
  by_cases eq : p' = p
  · subst eq
    rw [Function.update_self] at hy
    cases hy
  · rw [Function.update_of_ne eq] at hy
    exact eq (once.unique ⟨y, hy, qy⟩ ⟨x, hp, hx⟩)

theorem holdsAt_update_none (hp : f p = some x) (hx : ¬ q x) (p' : P) :
    HoldsAt (Function.update f p none) q p' ↔ HoldsAt f q p' := by
  by_cases eq : p' = p
  · subst eq
    simp [HoldsAt, hp, hx]
  · simp [HoldsAt, eq]

theorem HeldOnce.other_removed (once : HeldOnce f q) (hp : f p = some x) (hx : ¬ q x) :
    HeldOnce (Function.update f p none) q := by
  simpa only [HeldOnce, holdsAt_update_none hp hx] using once

end Removed

end CapsuleOS.Lib
