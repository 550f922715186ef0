import Mathlib.Tactic

/-!
# Build profiles

In a development build a sum or a difference that overflows panics, in a release build it wraps. A panic is
no result.
-/
namespace CapsuleOS.Lib

inductive Profile where
  | dev
  | release
  deriving DecidableEq

namespace Profile

/-- What an operation that overflowed comes to. -/
def overflowed {α : Type} (profile : Profile) (wrapped : α) : Option α :=
  match profile with
  | .dev => none
  | .release => some wrapped

/-! ## Numbers of 64 bits -/

def add (profile : Profile) (a b : Nat) : Option Nat :=
  if a + b < 2 ^ 64 then some (a + b) else profile.overflowed ((a + b) % 2 ^ 64)

def sub (profile : Profile) (a b : Nat) : Option Nat :=
  if b ≤ a then some (a - b) else profile.overflowed (a + 2 ^ 64 - b)

theorem add_dev {a b c : Nat} (run : Profile.dev.add a b = some c) : c = a + b ∧ a + b < 2 ^ 64 := by
  unfold add at run
  split_ifs at run with room
  · exact ⟨(Option.some.inj run).symm, room⟩
  · cases run

theorem sub_dev {a b c : Nat} (run : Profile.dev.sub a b = some c) : c = a - b ∧ b ≤ a := by
  unfold sub at run
  split_ifs at run with room
  · exact ⟨(Option.some.inj run).symm, room⟩
  · cases run

/-! ## Words -/

section Words

variable {w : Nat} {profile : Profile} {a b : BitVec w} {n : Nat}

def addWord (profile : Profile) (a b : BitVec w) : Option (BitVec w) :=
  if a.uaddOverflow b then profile.overflowed (a + b) else some (a + b)

/-- The sum of signed words. -/
def addSigned (profile : Profile) (a b : BitVec w) : Option (BitVec w) :=
  if a.saddOverflow b then profile.overflowed (a + b) else some (a + b)

/-- The last of `n` places from `a` on is reached without an overflow, or overflows are not checked. -/
def Reaches (profile : Profile) (a : BitVec w) (n : Nat) : Prop := profile = .release ∨ a.toNat + n ≤ 2 ^ w

instance : Decidable (profile.Reaches a n) := inferInstanceAs (Decidable (_ ∨ _))

theorem Reaches.mono {k : Nat} (h : profile.Reaches a n) (le : k ≤ n) : profile.Reaches a k :=
  h.imp_right fun inside => (Nat.add_le_add_left le _).trans inside

theorem addWord_eq (small : n < 2 ^ w) : profile.addWord a (BitVec.ofNat w n) =
    if profile.Reaches a (n + 1) then some (a + BitVec.ofNat w n) else none := by
  unfold addWord BitVec.uaddOverflow
  rw [BitVec.toNat_ofNat, Nat.mod_eq_of_lt small]
  by_cases fits : a.toNat + n < 2 ^ w
  · have reached : profile.Reaches a (n + 1) := .inr fits
    rw [if_neg (by simpa using fits), if_pos reached]
  · rw [if_pos (by simpa using fits)]
    cases profile with
    | dev =>
      have stuck : ¬Profile.dev.Reaches a (n + 1) := by
        rintro (other | inside)
        · cases other
        · exact fits inside
      rw [if_neg stuck]
      rfl
    | release =>
      have reached : Profile.release.Reaches a (n + 1) := .inl rfl
      rw [if_pos reached]
      rfl

theorem addSigned_eq (small : a.toInt + b.toInt < 2 ^ (w - 1)) (large : -2 ^ (w - 1) ≤ a.toInt + b.toInt) :
    profile.addSigned a b = some (a + b) := by
  have fits : a.saddOverflow b = false := by
    unfold BitVec.saddOverflow
    simp only [ge_iff_le, decide_eq_false_iff_not.mpr (not_le.mpr small),
      decide_eq_false_iff_not.mpr (not_lt.mpr large), Bool.or_self]
  rw [addSigned, fits, if_neg Bool.false_ne_true]

end Words

end Profile

end CapsuleOS.Lib
