import Mathlib.Tactic

/-!
# Address space identifiers

One counter hands out the identifiers 1 to 255 and starts again at 1; a generation counts how often it
has done so, for the callers to drop stale translations.

The allocator has no other caller than the creation of a process, and nothing is given back: a run is
a number of calls.
-/
namespace CapsuleOS

def maxUserAsid : Nat := 255

/-- The counters `NEXT_ASID`, of 16 bits, and `ROLLOVER_GEN`, of 32 bits. -/
structure Asids where
  nextAsid : Nat
  rolloverGen : Nat
  deriving DecidableEq, Repr

namespace Asids

def boot : Asids := { nextAsid := 1, rolloverGen := 0 }

def alloc (s : Asids) : Option Nat × Asids :=
  let next := s.nextAsid
  let s := { s with nextAsid := (next + 1) % 2 ^ 16 }
  if next = 0 ∨ next > maxUserAsid then
    (some 1, { nextAsid := 1, rolloverGen := (s.rolloverGen + 1) % 2 ^ 32 })
  else (some next, s)

/-! ## One call -/

variable {s : Asids}

theorem alloc_next (pos : 0 < s.nextAsid) (le : s.nextAsid ≤ maxUserAsid) :
    s.alloc = (some s.nextAsid, { s with nextAsid := s.nextAsid + 1 }) := by
  have inside : ¬ (s.nextAsid = 0 ∨ s.nextAsid > maxUserAsid) := by omega
  have small : (s.nextAsid + 1) % 2 ^ 16 = s.nextAsid + 1 := by
    unfold maxUserAsid at le
    omega
  simp only [alloc, if_neg inside, small]

theorem alloc_rollover (gt : maxUserAsid < s.nextAsid) :
    s.alloc = (some 1, { nextAsid := 1, rolloverGen := (s.rolloverGen + 1) % 2 ^ 32 }) :=
  if_pos (.inr gt)

/-! ## The calls since boot -/

/-- The counters after `n` calls. -/
def after (n : Nat) : Asids := (fun s => s.alloc.2)^[n] boot

/-- What the call with number `n` returns; the first one has number 0. -/
def returned (n : Nat) : Option Nat := (after n).alloc.1

/-- `rollover_generation` reads differently before and after the call. -/
def Changes (n : Nat) : Prop := (after (n + 1)).rolloverGen ≠ (after n).rolloverGen

/-- What the callers rely on: identifiers for user processes, and a new generation before any of them
is used again. -/
structure UniquePerGeneration (n : Nat) : Prop where
  range : ∀ i < n, ∃ a, returned i = some a ∧ 1 ≤ a ∧ a ≤ maxUserAsid
  apart : ∀ i j, i < j → j < n → returned i = returned j → ∃ k, i < k ∧ k ≤ j ∧ Changes k

theorem after_succ (n : Nat) : after (n + 1) = (after n).alloc.2 := Function.iterate_succ_apply' ..

/-- The counter has a period of 256 calls, and each period is a generation. -/
theorem after_eq (n : Nat) : after n = { nextAsid := n % 256 + 1, rolloverGen := n / 256 % 2 ^ 32 } := by
  induction n with
  | zero => rfl
  | succ n ih =>
    rw [after_succ, ih]
    by_cases last : n % 256 = 255
    · -- all 255 identifiers are gone
      rw [alloc_rollover (by dsimp only; unfold maxUserAsid; omega), mk.injEq]
      dsimp only
      omega
    · rw [alloc_next (Nat.succ_pos _) (by dsimp only; unfold maxUserAsid; omega), mk.injEq]
      dsimp only
      omega

/-- The last call of a period returns 1, as does the first one of the next. -/
theorem returned_eq (n : Nat) : returned n = some (if n % 256 = 255 then 1 else n % 256 + 1) := by
  unfold returned
  rw [after_eq]
  split_ifs with last
  · rw [alloc_rollover (by dsimp only; unfold maxUserAsid; omega)]
  · rw [alloc_next (Nat.succ_pos _) (by dsimp only; unfold maxUserAsid; omega)]

/-- The generation changes with the last call of a period. -/
theorem changes_iff (n : Nat) : Changes n ↔ n % 256 = 255 := by
  unfold Changes
  rw [after_eq, after_eq]
  dsimp only
  omega

theorem returned_range (n : Nat) : ∃ a, returned n = some a ∧ 1 ≤ a ∧ a ≤ maxUserAsid := by
  refine ⟨_, returned_eq n, ?_⟩
  unfold maxUserAsid
  split_ifs <;> omega

/-- Two calls that return one identifier are apart unless the first of them is the one that rolled over
and the other is the next. -/
theorem apart_iff {i j : Nat} (lt : i < j) (same : returned i = returned j) :
    (∃ k, i < k ∧ k ≤ j ∧ Changes k) ↔ ¬ (i % 256 = 255 ∧ j = i + 1) := by
  rw [returned_eq, returned_eq, Option.some_inj] at same
  constructor
  · rintro ⟨k, after_i, upto_j, change⟩ ⟨rolled, rfl⟩
    rw [changes_iff] at change
    omega
  · intro other
    -- the call that ends the period of the one after `i`
    refine ⟨(i + 1) / 256 * 256 + 255, by omega, ?_, (changes_iff _).mpr (by omega)⟩
    split_ifs at same <;> omega

/-- The call that rolls over and the next one both return 1, in one generation. -/
theorem not_unique {n : Nat} (many : 256 < n) : ¬ UniquePerGeneration n := by
  intro unique
  have both : returned 255 = returned 256 := by
    rw [returned_eq, returned_eq]
    rfl
  have change := unique.apart 255 256 (by decide) many both
  rw [apart_iff (by decide) both] at change
  exact change ⟨rfl, rfl⟩

end Asids

open Asids in
/-- The identifiers of the calls since boot are unique in their generation as long as the counter has
rolled over at most once and has not been used since. -/
theorem asids_unique_iff (n : Nat) : UniquePerGeneration n ↔ n ≤ 256 := by
  constructor
  · intro unique
    by_contra many
    exact not_unique (Nat.lt_of_not_le many) unique
  · refine fun few => ⟨fun i _ => returned_range i, fun i j lt here same => ?_⟩
    rw [apart_iff lt same]
    omega

open Asids in
/-- 257 calls. -/
theorem asid_used_twice : ¬ ∀ n, UniquePerGeneration n :=
  fun claim => not_unique (by decide) (claim 257)

end CapsuleOS
