import Mathlib.Tactic

/-!
# Data refinement

Calls on a concrete state and on an abstract one, each with a reply. If related states give the same reply and
stay related, then every sequence of calls gives the same replies (`Refines.run`). A call that does not return
is `none`; on the abstract side every call returns.

The abstract state here is a queue: a list of bounded length, from which any value can be removed.
-/
namespace CapsuleOS.Lib

section Refines

variable {Op Reply σ τ : Type} (exec : Op → σ → Option (Reply × σ)) (spec : Op → τ → Reply × τ)

def replies : List Op → σ → Option (List Reply × σ)
  | [], s => some ([], s)
  | op :: ops, s => do
    let (reply, s) ← exec op s
    let (rest, s) ← replies ops s
    return (reply :: rest, s)

def repliesOf : List Op → τ → List Reply × τ
  | [], t => ([], t)
  | op :: ops, t =>
    let (reply, t) := spec op t
    let (rest, t) := repliesOf ops t
    (reply :: rest, t)

def Refines (R : σ → τ → Prop) : Prop :=
  ∀ op s t, R s t → ∃ s', exec op s = some ((spec op t).1, s') ∧ R s' (spec op t).2

variable {exec spec} {R : σ → τ → Prop} {s : σ} {t : τ}

theorem Refines.run (h : Refines exec spec R) (ops : List Op) (related : R s t) :
    ∃ s', replies exec ops s = some ((repliesOf spec ops t).1, s') ∧ R s' (repliesOf spec ops t).2 := by
  induction ops generalizing s t with
  | nil => exact ⟨s, rfl, related⟩
  | cons op ops ih =>
    obtain ⟨s₁, first, related₁⟩ := h op s t related
    obtain ⟨s', rest, related'⟩ := ih related₁
    refine ⟨s', ?_, related'⟩
    simp only [replies, first, rest, Option.bind_eq_bind, Option.bind_some]
    rfl

end Refines

/-! ## Queues -/

namespace Fifo

variable {α : Type}

/-- A full queue refuses the value. -/
def push (capacity : Nat) (a : α) (q : List α) : Bool × List α :=
  if q.length < capacity then (true, q ++ [a]) else (false, q)

/-- The oldest value. -/
def pop (q : List α) : Option α × List α := (q.head?, q.tail)

/-- The first place of the value is given up. -/
def remove [DecidableEq α] (a : α) (q : List α) : List α := q.erase a

end Fifo

end CapsuleOS.Lib
