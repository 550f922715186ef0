import Mathlib.Tactic

/-!
# Status codes and machine words
-/
namespace CapsuleOS

inductive Status where
  | ok
  | notFound
  | noMemory
  | invalidArgs
  | badHandle
  | wrongType
  | accessDenied
  | alreadyExists
  | notEmpty
  | fileOpen
  | fileNotFound
  | processNotFound
  | threadNotFound
  | invalidImage
  | peerClosed
  | notAllowed
  | tryAgain
  | timedOut
  | canceled
  deriving DecidableEq, Repr

namespace Status

/-- The discriminants of the `repr(i32)` enumeration. -/
def code : Status → Int
  | ok => 0
  | notFound => -1
  | noMemory => -2
  | invalidArgs => -3
  | badHandle => -4
  | wrongType => -5
  | accessDenied => -6
  | alreadyExists => -10
  | notEmpty => -11
  | fileOpen => -12
  | fileNotFound => -13
  | processNotFound => -20
  | threadNotFound => -21
  | invalidImage => -22
  | peerClosed => -30
  | notAllowed => -31
  | tryAgain => -40
  | timedOut => -41
  | canceled => -42

/-- `self as i32 as usize`, which extends the sign. -/
def toRaw (s : Status) : BitVec 64 := (BitVec.ofInt 32 s.code).signExtend 64

def fromRaw (raw : BitVec 32) : Status :=
  match raw.toInt with
  | 0 => ok
  | -1 => notFound
  | -2 => noMemory
  | -3 => invalidArgs
  | -4 => badHandle
  | -5 => wrongType
  | -6 => accessDenied
  | -10 => alreadyExists
  | -11 => notEmpty
  | -12 => fileOpen
  | -13 => fileNotFound
  | -20 => processNotFound
  | -21 => threadNotFound
  | -22 => invalidImage
  | -30 => peerClosed
  | -31 => notAllowed
  | -40 => tryAgain
  | -41 => timedOut
  | -42 => canceled
  | _ => invalidArgs

@[simp] theorem fromRaw_toRaw (s : Status) : fromRaw (s.toRaw.setWidth 32) = s := by
  cases s <;> rfl

theorem toRaw_neg (s : Status) : s.toRaw.toInt < 0 ↔ s ≠ ok := by
  cases s <;> decide

theorem toRaw_zero (s : Status) : s.toRaw = 0 ↔ s = ok := by
  cases s <;> decide

end Status

/-- The kernel is built without overflow checks: `usize` addition wraps. -/
def wadd (a b : Nat) : Nat := (a + b) % 2 ^ 64

/-- Wrapping `usize` subtraction. -/
def wsub (a b : Nat) : Nat := (a + (2 ^ 64 - b % 2 ^ 64)) % 2 ^ 64

theorem wadd_eq {a b : Nat} (h : a + b < 2 ^ 64) : wadd a b = a + b := Nat.mod_eq_of_lt h

theorem wsub_eq {a b : Nat} (h : b ≤ a) (ha : a < 2 ^ 64) : wsub a b = a - b := by
  unfold wsub
  omega

end CapsuleOS
