import CapsuleOS.Lib.Fields

/-!
# Checked accesses

Indexing and slicing as a language does it that checks every access: what is out of range stops with the
error `panic`. Within the range the checked accesses give what `leField` and `slice` give.
-/
namespace CapsuleOS.Lib

/-- A part of a list, by its range. -/
structure Part {α : Type} (xs : List α) where
  start : Nat
  stop : Nat
  forward : start ≤ stop
  inside : stop ≤ xs.length

def Part.items {α : Type} {xs : List α} (p : Part xs) : List α := slice xs p.start p.stop

section Access

variable {ε α : Type} (panic : ε)

def readByte (bytes : List UInt8) (i : Nat) : Except ε UInt8 :=
  match bytes[i]? with
  | some byte => .ok byte
  | none => .error panic

/-- `n` bytes, one after the other. -/
def readBytes (bytes : List UInt8) (off : Nat) : Nat → Except ε (List UInt8)
  | 0 => .ok []
  | n + 1 => do
    let byte ← readByte panic bytes off
    let rest ← readBytes bytes (off + 1) n
    return byte :: rest

/-- A little-endian number of `w` bits from its bytes. -/
def readField (w : Nat) (bytes : List UInt8) (off : Nat) : Except ε (BitVec w) := do
  let field ← readBytes panic bytes off (w / 8)
  return BitVec.ofNat w (Mem.ofBytes field)

/-- The range from `start` to `stop`. -/
def readSlice (xs : List α) (start stop : Nat) : Except ε (List α) :=
  if start ≤ stop ∧ stop ≤ xs.length then .ok (slice xs start stop) else .error panic

/-- The same, but where the slice is and not only what is in it. -/
def readPart (xs : List α) (start stop : Nat) : Except ε (Part xs) :=
  if h : start ≤ stop ∧ stop ≤ xs.length then .ok ⟨start, stop, h.1, h.2⟩ else .error panic

/-- Overwrite the range from `start` to `stop`; the source must be as long as the range. -/
def writeSlice (xs : List α) (start stop : Nat) (src : List α) : Except ε (List α) :=
  if start ≤ stop ∧ stop ≤ xs.length ∧ src.length = stop - start then .ok (splice xs start src)
  else .error panic

/-- Fill an array of `n` bytes; the source must be as long as the array. -/
def copyFromSlice (n : Nat) (src : List UInt8) : Except ε { bytes : List UInt8 // bytes.length = n } :=
  if h : src.length = n then .ok ⟨src, h⟩ else .error panic

variable {panic} {bytes : List UInt8} {off n w start stop : Nat}

theorem readByte_ok (inside : off < bytes.length) : readByte panic bytes off = .ok bytes[off] := by
  unfold readByte
  rw [List.getElem?_eq_getElem inside]

theorem slice_cons {xs : List α} (lo : start < stop) (hi : stop ≤ xs.length) :
    slice xs start stop = xs[start] :: slice xs (start + 1) stop := by
  obtain ⟨k, rfl⟩ := Nat.exists_eq_add_of_lt lo
  unfold slice
  rw [List.drop_eq_getElem_cons (by omega), show start + k + 1 - start = k + 1 by omega, List.take_succ_cons,
    show start + k + 1 - (start + 1) = k by omega]

theorem readBytes_ok (inside : off + n ≤ bytes.length) :
    readBytes panic bytes off n = .ok (slice bytes off (off + n)) := by
  induction n generalizing off with
  | zero => simp [readBytes, slice]
  | succ n ih =>
    have rest : readBytes panic bytes (off + 1) n = .ok (slice bytes (off + 1) (off + 1 + n)) := ih (by omega)
    unfold readBytes
    rw [readByte_ok (by omega), rest, slice_cons (by omega) inside, Nat.add_right_comm]
    rfl

theorem readField_ok (inside : off + w / 8 ≤ bytes.length) :
    readField panic w bytes off = .ok (leField w bytes off) := by
  unfold readField leField
  rw [readBytes_ok inside, slice, Nat.add_sub_cancel_left]
  rfl

theorem readSlice_ok {xs : List α} (lo : start ≤ stop) (hi : stop ≤ xs.length) :
    readSlice panic xs start stop = .ok (slice xs start stop) := if_pos ⟨lo, hi⟩

theorem readPart_ok {xs : List α} (lo : start ≤ stop) (hi : stop ≤ xs.length) :
    readPart panic xs start stop = .ok ⟨start, stop, lo, hi⟩ := dif_pos ⟨lo, hi⟩

theorem readPart_panic {xs : List α} (back : stop < start) : readPart panic xs start stop = .error panic :=
  dif_neg fun inside => absurd inside.1 (not_le.mpr back)

theorem writeSlice_ok {xs src : List α} (lo : start ≤ stop) (hi : stop ≤ xs.length)
    (length : src.length = stop - start) : writeSlice panic xs start stop src = .ok (splice xs start src) :=
  if_pos ⟨lo, hi, length⟩

theorem writeSlice_panic {xs src : List α} (hi : xs.length < stop) :
    writeSlice panic xs start stop src = .error panic := if_neg fun inside => absurd inside.2.1 (not_le.mpr hi)

/-- Write on where the buffer still has its initial value. -/
theorem writeSlice_append {xs src : List α} {a : α} {k : Nat} (lo : start = xs.length)
    (hi : stop = start + src.length) (room : src.length ≤ k) :
    writeSlice panic (xs ++ List.replicate k a) start stop src =
      .ok (xs ++ src ++ List.replicate (k - src.length) a) := by
  have length : (xs ++ List.replicate k a).length = start + k := by
    rw [List.length_append, List.length_replicate, lo]
  rw [writeSlice_ok (by omega) (by omega) (by omega), splice, List.take_left' lo.symm, ← List.drop_drop,
    List.drop_left' lo.symm, List.drop_replicate]

theorem copyFromSlice_ok {src : List UInt8} (h : src.length = n) :
    copyFromSlice panic n src = .ok ⟨src, h⟩ := dif_pos h

theorem copyFromSlice_panic {src : List UInt8} (h : src.length ≠ n) :
    copyFromSlice panic n src = .error panic := dif_neg h

end Access

/-! ## Writing back what was read -/

section Back

variable {bytes : List UInt8} {off w a b c : Nat}

theorem Mem.toBytes_ofBytes (bs : List UInt8) : Mem.toBytes bs.length (Mem.ofBytes bs) = bs := by
  induction bs with
  | nil => rfl
  | cons b bs ih =>
    have small := b.toNat_lt
    have high : (b.toNat + 256 * Mem.ofBytes bs) / 256 = Mem.ofBytes bs := by omega
    have low : UInt8.ofNat (b.toNat + 256 * Mem.ofBytes bs) = b := by
      apply UInt8.toNat_inj.mp
      simp only [UInt8.toNat_ofNat']
      omega
    simp only [List.length_cons, Mem.ofBytes, Mem.toBytes]
    rw [high, low, ih]

theorem leBytes_leField (whole : 8 * (w / 8) = w) (inside : off + w / 8 ≤ bytes.length) :
    leBytes (leField w bytes off) = slice bytes off (off + w / 8) := by
  have length : (slice bytes off (off + w / 8)).length = w / 8 := by
    rw [slice_length (Nat.le_add_right _ _) inside, Nat.add_sub_cancel_left]
  have small : Mem.ofBytes (slice bytes off (off + w / 8)) < 2 ^ w := by
    have bound := Mem.ofBytes_lt (slice bytes off (off + w / 8))
    rwa [length, show (256 : Nat) = 2 ^ 8 by norm_num, ← pow_mul, whole] at bound
  have read : leField w bytes off = BitVec.ofNat w (Mem.ofBytes (slice bytes off (off + w / 8))) := by
    rw [leField, slice, Nat.add_sub_cancel_left]
  have back := Mem.toBytes_ofBytes (slice bytes off (off + w / 8))
  rw [length] at back
  rw [read, leBytes, BitVec.toNat_ofNat, Nat.mod_eq_of_lt small]
  exact back

/-- Adjacent slices. -/
theorem slice_join {α : Type} {xs : List α} (lo : a ≤ b) (hi : b ≤ c) :
    slice xs a b ++ slice xs b c = slice xs a c := by
  obtain ⟨m, rfl⟩ := Nat.exists_eq_add_of_le lo
  obtain ⟨n, rfl⟩ := Nat.exists_eq_add_of_le hi
  simp only [slice, Nat.add_sub_cancel_left]
  rw [show a + m + n - a = m + n by omega, List.take_add, List.drop_drop]

end Back

end CapsuleOS.Lib
