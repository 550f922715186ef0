import Mathlib.Tactic

/-!
# Loops without a bound

A loop is given by one round of it: from a state the round either goes on from another state or leaves the
loop with a result. `loop` plays a given number of rounds, `Leaves` says that some number is enough. What
holds of every result follows from an invariant (`Leaves.post`), that there is a result from a measure
(`exists_leaves`).
-/
namespace CapsuleOS.Lib

inductive Round (σ β : Type) where
  | again (state : σ)
  | leave (result : β)

namespace Round

variable {σ β : Type} {round : σ → Round σ β} {s s' : σ} {b c : β} {I : σ → Prop} {Q : β → Prop}

/-- At most `fuel` rounds. -/
def loop (round : σ → Round σ β) : Nat → σ → Option β
  | 0, _ => none
  | fuel + 1, s =>
    match round s with
    | .again s' => loop round fuel s'
    | .leave b => some b

/-- Entered in `s`, the loop comes to an end, with `b`. -/
def Leaves (round : σ → Round σ β) (s : σ) (b : β) : Prop := ∃ fuel, loop round fuel s = some b

theorem loop_again (h : round s = .again s') (fuel : Nat) :
    loop round (fuel + 1) s = loop round fuel s' := by
  rw [loop, h]

theorem loop_leave (h : round s = .leave b) (fuel : Nat) : loop round (fuel + 1) s = some b := by
  rw [loop, h]

/-- More rounds do not change the result. -/
theorem loop_add {fuel : Nat} (h : loop round fuel s = some b) (more : Nat) :
    loop round (fuel + more) s = some b := by
  induction fuel generalizing s with
  | zero => cases h
  | succ fuel ih =>
    rw [Nat.add_right_comm]
    cases turn : round s with
    | again s' =>
      rw [loop_again turn] at h ⊢
      exact ih h
    | leave c => rwa [loop_leave turn] at h ⊢

theorem Leaves.unique (h : Leaves round s b) (h' : Leaves round s c) : b = c := by
  obtain ⟨n, hn⟩ := h
  obtain ⟨k, hk⟩ := h'
  have hn := loop_add hn k
  rw [Nat.add_comm, loop_add hk n] at hn
  exact (Option.some.inj hn).symm

theorem Leaves.now (h : round s = .leave b) : Leaves round s b := ⟨1, loop_leave h 0⟩

theorem Leaves.again (h : round s = .again s') (rest : Leaves round s' b) : Leaves round s b := by
  obtain ⟨fuel, left⟩ := rest
  exact ⟨fuel + 1, (loop_again h fuel).trans left⟩

/-- The rounds from `s` lead to `s'`. -/
def Goes (round : σ → Round σ β) : σ → σ → Prop := Relation.ReflTransGen fun s s' => round s = .again s'

theorem Goes.trans {s'' : σ} (h : Goes round s s') (h' : Goes round s' s'') : Goes round s s'' :=
  Relation.ReflTransGen.trans h h'

theorem Goes.once (h : round s = .again s') : Goes round s s' := Relation.ReflTransGen.single h

theorem Goes.leaves (h : Goes round s s') (rest : Leaves round s' b) : Leaves round s b := by
  induction h using Relation.ReflTransGen.head_induction_on with
  | refl => exact rest
  | head turn _ ih => exact ih.again turn

theorem Goes.kept (h : Goes round s s') (start : I s)
    (again : ∀ s s', I s → round s = .again s' → I s') : I s' := by
  induction h with
  | refl => exact start
  | tail _ turn ih => exact again _ _ ih turn

/-- What an invariant says of the states that the loop is left from holds of its result. -/
theorem Leaves.post (h : Leaves round s b) (start : I s)
    (again : ∀ s s', I s → round s = .again s' → I s')
    (leave : ∀ s b, I s → round s = .leave b → Q b) : Q b := by
  obtain ⟨fuel, h⟩ := h
  induction fuel generalizing s with
  | zero => cases h
  | succ fuel ih =>
    cases turn : round s with
    | again s' =>
      rw [loop_again turn] at h
      exact ih (again s s' start turn) h
    | leave c =>
      rw [loop_leave turn] at h
      cases h
      exact leave s _ start turn

/-- A loop whose rounds lower a measure is left. -/
theorem exists_leaves (measure : σ → Nat) (start : I s)
    (again : ∀ s s', I s → round s = .again s' → I s' ∧ measure s' < measure s) :
    ∃ b, Leaves round s b := by
  induction bound : measure s using Nat.strong_induction_on generalizing s with
  | h n ih =>
    cases turn : round s with
    | again s' =>
      obtain ⟨kept, less⟩ := again s s' start turn
      obtain ⟨b, fuel, h⟩ := ih (measure s') (bound ▸ less) kept rfl
      exact ⟨b, fuel + 1, by rw [loop_again turn, h]⟩
    | leave b => exact ⟨b, 1, loop_leave turn 0⟩

end Round

end CapsuleOS.Lib
