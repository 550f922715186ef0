import Mathlib.Tactic

/-!
# Programs that call their environment

A program returns, or performs one operation and goes on with the answer. What an operation does is
left to the environment: a run is the list of the operations performed, each with some answer of its
type. An operation whose answer type is empty is one that does not come back.
-/
namespace CapsuleOS.Lib

/-- A program over operations, the answer to each of which has a type of its own. -/
inductive Calls {ω : Type} (Ans : ω → Type) (α : Type) where
  | ret (value : α)
  | call (op : ω) (next : Ans op → Calls Ans α)

namespace Calls

variable {ω α β : Type} {Ans : ω → Type}

def bind : Calls Ans α → (α → Calls Ans β) → Calls Ans β
  | .ret a, f => f a
  | .call op next, f => .call op fun r => (next r).bind f

instance : Monad (Calls Ans) where
  pure := .ret
  bind := bind

@[simp] theorem ret_bind (a : α) (f : α → Calls Ans β) : (.ret a : Calls Ans α) >>= f = f a := rfl

@[simp] theorem call_bind (op : ω) (next : Ans op → Calls Ans α) (f : α → Calls Ans β) :
    .call op next >>= f = .call op fun r => next r >>= f := rfl

/-- A run to the end: the operations with their answers, and the value returned. -/
inductive Runs : Calls Ans α → List ((op : ω) × Ans op) → α → Prop where
  | ret (a : α) : Runs (.ret a) [] a
  | call (op : ω) {next : Ans op → Calls Ans α} {reply : Ans op} {log : List ((op : ω) × Ans op)} {a : α}
      (rest : Runs (next reply) log a) : Runs (.call op next) (⟨op, reply⟩ :: log) a

variable {log : List ((op : ω) × Ans op)}

@[simp] theorem runs_ret {a b : α} : (.ret a : Calls Ans α).Runs log b ↔ log = [] ∧ b = a := by
  constructor
  · rintro ⟨⟩
    exact ⟨rfl, rfl⟩
  · rintro ⟨rfl, rfl⟩
    exact .ret b

theorem Runs.of_call {op : ω} {next : Ans op → Calls Ans α} {b : α} (h : (Calls.call op next).Runs log b) :
    ∃ reply rest, log = ⟨op, reply⟩ :: rest ∧ (next reply).Runs rest b := by
  cases h with
  | call _ rest => exact ⟨_, _, rfl, rest⟩

/-- A sequence whose end does not depend on what came before. -/
theorem Runs.of_bind_ret {m : Calls Ans α} {a b : β} (h : (m >>= fun _ => .ret a).Runs log b) : b = a := by
  induction m generalizing log with
  | ret _ => exact (runs_ret.mp h).2
  | call op next ih =>
    obtain ⟨reply, rest, _, h⟩ := of_call h
    exact ih reply h

end Calls

end CapsuleOS.Lib
