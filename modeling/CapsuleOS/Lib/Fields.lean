import CapsuleOS.Lib.Bytes

/-!
# Little-endian fields

A record is written as its fields one after the other; a field of `w` bits takes `w / 8` bytes, least
significant first. Reading is at an offset: `leField_leBytes` and `leField_skip` walk over what was written.
-/
namespace CapsuleOS.Lib

def leBytes {w : Nat} (v : BitVec w) : List UInt8 := Mem.toBytes (w / 8) v.toNat

def leField (w : Nat) (bytes : List UInt8) (off : Nat) : BitVec w :=
  BitVec.ofNat w (Mem.ofBytes ((bytes.drop off).take (w / 8)))

/-- The bytes from `start` to `stop`. -/
def slice {α : Type} (xs : List α) (start stop : Nat) : List α := (xs.drop start).take (stop - start)

section Fields

variable {w w' off : Nat} {v : BitVec w} {xs ys rest : List UInt8}

@[simp] theorem leBytes_length (v : BitVec w) : (leBytes v).length = w / 8 := Mem.toBytes_length _ _

theorem leField_leBytes (whole : 8 * (w / 8) = w) : leField w (leBytes v ++ rest) 0 = v := by
  have taken : (leBytes v ++ rest).take (w / 8) = leBytes v := List.take_left' (leBytes_length v)
  have size : 256 ^ (w / 8) = 2 ^ w := by
    rw [show (256 : Nat) = 2 ^ 8 by norm_num, ← pow_mul, whole]
  rw [leField, List.drop_zero, taken, leBytes, Mem.ofBytes_toBytes, size, Nat.mod_eq_of_lt v.isLt]
  simp

theorem leField_append (h : xs.length ≤ off) : leField w (xs ++ rest) off = leField w rest (off - xs.length) := by
  rw [leField, leField, List.drop_append, List.drop_eq_nil_of_le h, List.nil_append]

/-- A field behind another one. -/
theorem leField_skip {v : BitVec w'} (h : w' / 8 ≤ off) :
    leField w (leBytes v ++ rest) off = leField w rest (off - w' / 8) := by
  rw [leField_append (by rw [leBytes_length]; exact h), leBytes_length]

/-- Only the bytes of the field matter. -/
theorem leField_congr (same : slice xs off (off + w / 8) = slice ys off (off + w / 8)) :
    leField w xs off = leField w ys off := by
  unfold slice at same
  rw [Nat.add_sub_cancel_left] at same
  rw [leField, leField, same]

end Fields

section Slices

variable {α : Type} {xs ys : List α} {start stop n : Nat}

theorem slice_length (lo : start ≤ stop) (hi : stop ≤ xs.length) :
    (slice xs start stop).length = stop - start := by
  simp only [slice, List.length_take, List.length_drop]
  omega

/-- Slices of what comes behind. -/
theorem slice_append (h : xs.length ≤ start) :
    slice (xs ++ ys) start stop = slice ys (start - xs.length) (stop - xs.length) := by
  rw [slice, slice, List.drop_append, List.drop_eq_nil_of_le h, List.nil_append]
  congr 1
  omega

/-- Slices behind a field. -/
theorem slice_skip {w : Nat} {v : BitVec w} {bytes : List UInt8} (h : w / 8 ≤ start) :
    slice (leBytes v ++ bytes) start stop = slice bytes (start - w / 8) (stop - w / 8) := by
  rw [slice_append (by rwa [leBytes_length]), leBytes_length]

theorem slice_front (length : xs.length = n) : slice (xs ++ ys) 0 n = xs := by
  rw [slice, List.drop_zero, Nat.sub_zero, List.take_left' length]

theorem slice_whole (length : xs.length = n) : slice xs 0 n = xs := by
  rw [slice, List.drop_zero, Nat.sub_zero, ← length, List.take_length]

/-- A field alone. -/
theorem leField_of_slice {w off : Nat} {v : BitVec w} {bytes : List UInt8} (whole : 8 * (w / 8) = w)
    (here : slice bytes off (off + w / 8) = leBytes v) : leField w bytes off = v := by
  have same : slice bytes off (off + w / 8) = slice (leBytes v ++ []) 0 (0 + w / 8) := by
    rw [here, List.append_nil, Nat.zero_add, slice_whole (leBytes_length v)]
  unfold slice at same
  rw [Nat.add_sub_cancel_left, Nat.add_sub_cancel_left] at same
  rw [leField, same]
  exact leField_leBytes whole

/-- Slices of a prefix. -/
theorem slice_take (h : stop ≤ n) : slice (xs.take n) start stop = slice xs start stop := by
  simp only [slice, List.drop_take, List.take_take]
  congr 1
  omega

theorem slice_eq_of_take {xs' : List α} (same : xs'.take n = xs.take n) (inside : stop ≤ n) :
    slice xs' start stop = slice xs start stop := by rw [← slice_take inside, same, slice_take inside]

theorem take_slice (h : start ≤ stop) : xs.take start ++ slice xs start stop = xs.take stop := by
  obtain ⟨k, rfl⟩ := Nat.exists_eq_add_of_le h
  rw [slice, Nat.add_sub_cancel_left, List.take_add]

theorem slice_slice {a b : Nat} (h : start + b ≤ stop) :
    slice (slice xs start stop) a b = slice xs (start + a) (start + b) := by
  simp only [slice, List.drop_take, List.take_take, List.drop_drop]
  congr 1
  omega

end Slices

section Loads

variable {m : Mem} {a n start stop : Nat}

theorem slice_load (lo : start ≤ stop) (hi : stop ≤ n) :
    slice (m.load a n) start stop = m.load (a + start) (stop - start) := by
  have length : (slice (m.load a n) start stop).length = stop - start :=
    slice_length lo (by rwa [Mem.load_length])
  refine List.ext_getElem (by rw [length, Mem.load_length]) fun i _ _ => ?_
  simp only [slice, List.getElem_take, List.getElem_drop, Mem.load_getElem, Nat.add_assoc]

theorem load_take {k : Nat} (h : k ≤ n) : (m.load a n).take k = m.load a k := slice_load (Nat.zero_le k) h

/-- A word of memory as a field of the bytes around it. -/
theorem load64_eq_leField (inside : start + 8 ≤ n) :
    m.load64 (a + start) = (leField 64 (m.load a n) start).toNat := by
  have bytes : slice (m.load a n) start (start + 8) = m.load (a + start) 8 := by
    rw [slice_load (Nat.le_add_right _ _) inside, Nat.add_sub_cancel_left]
  have small := Mem.load64_lt m (a + start)
  unfold slice at bytes
  rw [Nat.add_sub_cancel_left] at bytes
  rw [leField, show 64 / 8 = 8 from rfl, bytes, BitVec.toNat_ofNat]
  exact (Nat.mod_eq_of_lt small).symm

end Loads

end CapsuleOS.Lib
