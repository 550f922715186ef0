import CapsuleOS.Lib.Bytes

/-!
# The entry of a program

The kernel hands over `argc` and an array of pointers to strings. `_hnx_user_entry` fills the static table of libc
from them: the pointer of each argument, and its length, which ends at the first zero byte, at the next pointer, or
after 4096 bytes. Addresses are numbers without bound, and nothing is read through a null pointer.
-/
namespace CapsuleOS.Libc

open Lib

/-- The length of `__HNX_ARGV_PTRS` and of `__HNX_ARGV_LENS`. -/
def argSlots : Nat := 16

structure ArgTable where
  argc : Int
  ptrs : Fin argSlots → Nat
  lens : Fin argSlots → Nat

namespace ArgTable

def initial : ArgTable := ⟨0, fun _ => 0xDEADBEEF, fun _ => 0xFFFFFFFFFFFFFFFF⟩

/-- The bytes that a slot refers to. -/
def argument (t : ArgTable) (m : Mem) (i : Fin argSlots) : List UInt8 := m.load (t.ptrs i) (t.lens i)

/-- The arguments of the program. -/
def arguments (t : ArgTable) (m : Mem) : List (List UInt8) :=
  ((List.finRange argSlots).take t.argc.toNat).map (t.argument m)

end ArgTable

/-- A byte behind a pointer. -/
def deref (m : Mem) (p : Nat) : Option UInt8 := if p = 0 then none else some (m p)

/-- `while s_ptr.add(len) < next_ptr && *s_ptr.add(len) != 0`. -/
def lenLoop (m : Mem) (sPtr nextPtr : Nat) : Nat → Nat → Option Nat
  | 0, len => some len
  | rounds + 1, len =>
    if sPtr + len < nextPtr then do
      let b ← deref m (sPtr + len)
      if b ≠ 0 then lenLoop m sPtr nextPtr rounds (len + 1) else some len
    else some len

/-- Where the string of argument `i` has to end. -/
def nextPtr (m : Mem) (argv argc i : Nat) : Nat :=
  if i + 1 < argc then m.load64 (argv + (i + 1) * 8) else m.load64 (argv + i * 8) + 4096

def fillLoop (m : Mem) (argv argc : Nat) : Nat → Nat → ArgTable → Option ArgTable
  | 0, _, t => some t
  | rounds + 1, i, t =>
    if h : i < argSlots then do
      let sPtr := m.load64 (argv + i * 8)
      let next := nextPtr m argv argc i
      let len ← lenLoop m sPtr next (next - sPtr) 0
      fillLoop m argv argc rounds (i + 1)
        { t with ptrs := Function.update t.ptrs ⟨i, h⟩ sPtr, lens := Function.update t.lens ⟨i, h⟩ len }
    else some t

/-- The table that `_hnx_user_entry` leaves to `main`; `none` if it reads through a null pointer. -/
def hnxUserEntry (m : Mem) (argcRaw : BitVec 64) (argvRaw : Nat) : Option ArgTable := do
  let argc := (argcRaw.setWidth 32).toInt
  if 0 < argc ∧ argvRaw ≠ 0 then
    let t ← fillLoop m argvRaw argc.toNat argc.toNat 0 .initial
    return { t with argc }
  else return .initial

def hnxArgc (t : ArgTable) : Int := t.argc

/-- The empty slice stands for an argument that is not there. -/
def hnxArg (m : Mem) (t : ArgTable) (i : Nat) : List UInt8 :=
  if h : i < argSlots then
    if (BitVec.ofNat 32 i).toInt ≥ t.argc then []
    else if t.ptrs ⟨i, h⟩ = 0 ∨ t.lens ⟨i, h⟩ = 0 then []
    else m.load (t.ptrs ⟨i, h⟩) (t.lens ⟨i, h⟩)
  else []

/-! ## The table -/

section Table

variable {m : Mem} {sPtr next rounds len n argv argc i : Nat} {t t' : ArgTable}

theorem load_succ (m : Mem) (a n : Nat) : m.load a (n + 1) = m a :: m.load (a + 1) n := by
  rw [Mem.load, List.range_succ_eq_map, List.map_cons, List.map_map]
  refine congrArg _ (List.map_congr_left fun i _ => ?_)
  exact congrArg m (by simp; omega)

/-- The loop finds the zero byte, or the end. -/
theorem lenLoop_length (run : lenLoop m sPtr next rounds len = some n)
    (fits : rounds ≠ 0 → sPtr + len + rounds ≤ next) :
    n = len + ((m.load (sPtr + len) rounds).takeWhile (· ≠ 0)).length ∧ (len < n → sPtr + len ≠ 0) := by
  induction rounds generalizing len with
  | zero =>
    cases run
    exact ⟨rfl, fun lt => absurd lt (lt_irrefl _)⟩
  | succ rounds ih =>
    have room := fits (Nat.succ_ne_zero rounds)
    have inside : sPtr + len < next := by omega
    rw [lenLoop, if_pos inside] at run
    rw [load_succ, List.takeWhile_cons]
    obtain ⟨b, read, run⟩ := Option.bind_eq_some_iff.mp run
    unfold deref at read
    split_ifs at read with null
    cases read
    by_cases zero : m (sPtr + len) = 0
    · rw [if_neg (by simpa using zero)] at run
      cases run
      rw [if_neg (by simpa using zero)]
      exact ⟨rfl, fun _ => null⟩
    · rw [if_pos zero] at run
      obtain ⟨count, -⟩ := ih run fun _ => by omega
      rw [if_pos (by simpa using zero)]
      refine ⟨?_, fun _ => null⟩
      rw [List.length_cons]
      rw [← Nat.add_assoc sPtr len 1] at count
      omega

/-- What the entry writes into slot `i`: the string from the pointer on. -/
structure Filled (m : Mem) (argv argc : Nat) (t : ArgTable) (i : Fin argSlots) : Prop where
  ptr : t.ptrs i = m.load64 (argv + i * 8)
  string : t.argument m i = (m.load (t.ptrs i) (nextPtr m argv argc i - t.ptrs i)).takeWhile (· ≠ 0)
  present : t.lens i ≠ 0 → t.ptrs i ≠ 0

theorem takeWhile_load (m : Mem) (a n : Nat) (p : UInt8 → Bool) :
    m.load a ((m.load a n).takeWhile p).length = (m.load a n).takeWhile p := by
  induction n generalizing a with
  | zero => rfl
  | succ n ih =>
    rw [load_succ, List.takeWhile_cons]
    split
    · rw [List.length_cons, load_succ, ih]
    · rfl

/-- The slots from `i` on are filled, and the others stay. -/
theorem fillLoop_fills (run : fillLoop m argv argc rounds i t = some t') : t'.argc = t.argc ∧
    (∀ j : Fin argSlots, i ≤ j.val → j.val < i + rounds → Filled m argv argc t' j) ∧
    ∀ j : Fin argSlots, j.val < i → t'.ptrs j = t.ptrs j ∧ t'.lens j = t.lens j := by
  induction rounds generalizing i t with
  | zero =>
    cases run
    exact ⟨rfl, fun j low high => absurd high (by omega), fun j _ => ⟨rfl, rfl⟩⟩
  | succ rounds ih =>
    rw [fillLoop] at run
    split_ifs at run with slot
    · obtain ⟨len, scan, run⟩ := Option.bind_eq_some_iff.mp run
      obtain ⟨count, later, kept⟩ := ih run
      refine ⟨count, fun j low high => ?_, fun j lt => ?_⟩
      · rcases Nat.lt_or_ge i j with next | here
        · exact later j next (by omega)
        · obtain rfl : j = ⟨i, slot⟩ := Fin.ext (by simp; omega)
          obtain ⟨ptr, length⟩ := kept ⟨i, slot⟩ (Nat.lt_succ_self i)
          simp only [Function.update_self] at ptr length
          obtain ⟨stop, found⟩ := lenLoop_length scan fun _ => by omega
          rw [Nat.zero_add, Nat.add_zero] at stop
          rw [Nat.add_zero] at found
          refine ⟨ptr, ?_, fun some_byte => ?_⟩
          · rw [ArgTable.argument, ptr, length, stop, takeWhile_load]
          · rw [length] at some_byte
            rw [ptr]
            exact found (Nat.pos_of_ne_zero some_byte)
      · obtain ⟨ptr, length⟩ := kept j (by omega)
        have other : j ≠ ⟨i, slot⟩ := by
          rintro rfl
          exact absurd lt (lt_irrefl _)
        simp only [Function.update_of_ne other] at ptr length
        exact ⟨ptr, length⟩
    · cases run
      exact ⟨rfl, fun j low _ => absurd j.isLt (by omega), fun j _ => ⟨rfl, rfl⟩⟩

/-- The count is that of the caller as a positive `i32`, and the slots below it hold the strings. -/
theorem hnxUserEntry_table {argcRaw : BitVec 64} (setup : hnxUserEntry m argcRaw argv = some t) :
    0 ≤ t.argc ∧ t.argc < 2 ^ 31 ∧ ∀ i : Fin argSlots, i.val < t.argc.toNat → Filled m argv t.argc.toNat t i := by
  unfold hnxUserEntry at setup
  have bound : (argcRaw.setWidth 32).toInt < 2 ^ 31 := BitVec.toInt_lt
  dsimp only at setup
  split_ifs at setup with some_arg
  · obtain ⟨u, filled, rest⟩ := Option.bind_eq_some_iff.mp setup
    cases rest
    obtain ⟨-, slots, -⟩ := fillLoop_fills filled
    refine ⟨some_arg.1.le, bound, fun i lt => ?_⟩
    have here := slots i (Nat.zero_le _) (by simpa using lt)
    exact ⟨here.ptr, here.string, here.present⟩
  · cases setup
    exact ⟨le_rfl, by decide, fun i lt => absurd lt (Nat.not_lt_zero _)⟩

end Table

end CapsuleOS.Libc
