import Mathlib.Tactic

/-!
# Heads of blocks

A list is taken block by block, and only the head of each block is kept. If the head is shorter than the
block, the list is whole exactly if it is no longer than one head.
-/
namespace CapsuleOS.Lib

variable {α : Type} {size room : Nat} {xs : List α}

def blockCount (size n : Nat) : Nat := (n + size - 1) / size

/-- The first `room` elements of every block of `size`. -/
def heads (size room : Nat) (xs : List α) : List (List α) :=
  (List.range (blockCount size xs.length)).map fun i => (xs.drop (i * size)).take room

theorem heads_nil (some_size : 0 < size) : heads size room ([] : List α) = [] := by
  have none : blockCount size 0 = 0 := Nat.div_eq_of_lt (by omega)
  rw [heads, List.length_nil, none]
  rfl

theorem heads_block (some_size : 0 < size) (room : Nat) (some_element : xs ≠ []) :
    heads size room xs = xs.take room :: heads size room (xs.drop size) := by
  have pos := List.length_pos_of_ne_nil some_element
  have count : blockCount size xs.length = blockCount size (xs.drop size).length + 1 := by
    rw [blockCount, blockCount, List.length_drop, ← Nat.add_div_right _ some_size]
    rcases le_total size xs.length with le | le
    · congr 1
      omega
    · have one : (xs.length + size - 1) / size = 1 := Nat.div_eq_of_lt_le (by omega) (by omega)
      rw [one, Nat.sub_eq_zero_of_le le]
      exact (Nat.div_eq_of_lt_le (by omega) (by omega)).symm
  rw [heads, count, List.range_succ_eq_map, List.map_cons, List.map_map, Nat.zero_mul, List.drop_zero, heads]
  congr 1
  refine List.map_congr_left fun i _ => ?_
  rw [Function.comp_apply, List.drop_drop, Nat.succ_mul, Nat.add_comm]

theorem length_heads (xs : List α) : (heads size room xs).length = blockCount size xs.length := by simp [heads]

theorem heads_length_le (some_size : 0 < size) (fits : room ≤ size) (xs : List α) :
    (heads size room xs).flatten.length ≤ xs.length := by
  induction length : xs.length using Nat.strong_induction_on generalizing xs with
  | h n ih =>
    by_cases none : xs = []
    · rw [none, heads_nil some_size]
      exact Nat.zero_le _
    · have pos := List.length_pos_of_ne_nil none
      have later := ih (n - size) (by omega) (xs.drop size) (by rw [List.length_drop, length])
      rw [heads_block some_size room none, List.flatten_cons, List.length_append, List.length_take]
      omega

/-- Nothing is lost exactly if one head is enough. -/
theorem heads_whole_iff (fits : room < size) (some_room : 0 < room) : (heads size room xs).flatten = xs ↔ xs.length ≤ room := by
  have some_size : 0 < size := by omega
  by_cases none : xs = []
  · rw [none, heads_nil some_size]
    simp
  · rw [heads_block some_size room none, List.flatten_cons]
    constructor
    · intro whole
      have count := congrArg List.length whole
      have later := heads_length_le some_size fits.le (xs.drop size)
      rw [List.length_append, List.length_take] at count
      rw [List.length_drop] at later
      omega
    · intro short
      rw [List.drop_eq_nil_of_le (by omega), heads_nil some_size, List.take_of_length_le short]
      exact List.append_nil xs

end CapsuleOS.Lib
