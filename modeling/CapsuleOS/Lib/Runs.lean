import CapsuleOS.Lib.Outcome

/-!
# Runs

A state and operations on it, each a routine that is possible in some states. `Run` is a sequence of
operations that return, each meeting a condition in the state before it; `Run.invariant` is the
induction over it. `Follows` checks a given list of operations by evaluation.
-/
namespace CapsuleOS.Lib

structure Stepper (σ ε ω : Type) where
  exec : ω → Prog σ ε Unit
  Enabled : σ → ω → Prop

namespace Stepper

variable {σ ε ω : Type} (m : Stepper σ ε ω)

/-- The operation takes `s` to `s'`, returning a value or an error. -/
structure Steps (op : ω) (s s' : σ) : Prop where
  enabled : m.Enabled s op
  ran : (m.exec op s).Ends s'

/-- A run whose steps all meet `cond`. -/
inductive Run (cond : σ → ω → Prop) (s₀ : σ) : σ → Prop where
  | start : Run cond s₀ s₀
  | step {s s' : σ} (op : ω) (run : Run cond s₀ s) (meets : cond s op) (step : m.Steps op s s') :
      Run cond s₀ s'

variable {m} {cond : σ → ω → Prop} {s₀ s : σ}

theorem Run.invariant {I : σ → Prop} (run : m.Run cond s₀ s) (init : I s₀)
    (keep : ∀ op s s', I s → cond s op → m.Steps op s s' → I s') : I s := by
  induction run with
  | start => exact init
  | step op _ meets step ih => exact keep op _ _ ih meets step

theorem Run.mono {cond' : σ → ω → Prop} (run : m.Run cond s₀ s) (weaker : ∀ s op, cond s op → cond' s op) :
    m.Run cond' s₀ s := by
  induction run with
  | start => exact .start
  | step op _ meets step ih => exact ih.step op (weaker _ op meets) step

variable (m) (s₀) in
/-- A run through a list of operations. -/
inductive RunOf : List ω → σ → Prop where
  | start : RunOf [] s₀
  | step {s s' : σ} {ops : List ω} (op : ω) (run : RunOf ops s) (step : m.Steps op s s') :
      RunOf (ops ++ [op]) s'

theorem RunOf.run {ops : List ω} (h : m.RunOf s₀ ops s) : m.Run (fun _ op => op ∈ ops) s₀ s := by
  induction h with
  | start => exact .start
  | step op _ step ih =>
    refine .step op (ih.mono fun _ _ mem => List.mem_append_left [op] mem) ?_ step
    exact List.mem_append_right _ (List.mem_singleton.mpr rfl)

variable (m) (cond) in
/-- The operations can be made one after the other, each meeting `cond`. -/
def Follows (s : σ) : List ω → Prop
  | [] => True
  | op :: ops => cond s op ∧ m.Enabled s op ∧ (m.exec op s).faulted = false ∧
      Follows (m.exec op s).state ops

instance Follows.decidable [∀ s op, Decidable (cond s op)] [∀ s op, Decidable (m.Enabled s op)] :
    (s : σ) → (ops : List ω) → Decidable (m.Follows cond s ops)
  | _, [] => .isTrue trivial
  | s, op :: ops =>
    have := Follows.decidable (m.exec op s).state ops
    inferInstanceAs (Decidable (cond s op ∧ m.Enabled s op ∧ (m.exec op s).faulted = false ∧ _))

variable (m) in
/-- The state after a list of operations. -/
def after (s : σ) : List ω → σ
  | [] => s
  | op :: ops => after (m.exec op s).state ops

theorem Run.follow (run : m.Run cond s₀ s) {ops : List ω} (h : m.Follows cond s ops) :
    m.Run cond s₀ (m.after s ops) := by
  induction ops generalizing s with
  | nil => exact run
  | cons op ops ih =>
    obtain ⟨meets, enabled, returns, rest⟩ := h
    exact ih (run.step op meets ⟨enabled, Outcome.ends_state returns⟩) rest

theorem RunOf.follow {before ops : List ω} (run : m.RunOf s₀ before s) (h : m.Follows cond s ops) :
    m.RunOf s₀ (before ++ ops) (m.after s ops) := by
  induction ops generalizing s before with
  | nil =>
    rw [List.append_nil]
    exact run
  | cons op ops ih =>
    obtain ⟨_, enabled, returns, rest⟩ := h
    rw [List.append_cons]
    exact ih (run.step op ⟨enabled, Outcome.ends_state returns⟩) rest

end Stepper

end CapsuleOS.Lib
