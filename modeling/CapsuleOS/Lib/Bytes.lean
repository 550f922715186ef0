import Mathlib.Tactic

/-!
# Byte-addressed memory

Memory is a total function from addresses to bytes. Bytes are moved in ranges; 64-bit words are
ranges of eight bytes, least significant first.

`splice` overwrites a window of a list; it is what a copy does to a buffer.

Reasoning is by ranges: `SameOn` says that two memories agree on a range, every access inside
the range gives the same result in both, and every store leaves the ranges it does not meet.
-/
namespace CapsuleOS.Lib

section Splice

variable {α : Type}

/-- Overwrite `xs` with `ys` from position `k` on. -/
def splice (xs : List α) (k : Nat) (ys : List α) : List α :=
  xs.take k ++ ys ++ xs.drop (k + ys.length)

@[simp] theorem splice_nil (xs : List α) (k : Nat) : splice xs k [] = xs := by simp [splice]

theorem splice_length {xs ys : List α} {k : Nat} (h : k + ys.length ≤ xs.length) :
    (splice xs k ys).length = xs.length := by
  simp [splice]
  omega

theorem splice_getElem? {xs ys : List α} {k : Nat} (h : k + ys.length ≤ xs.length) (i : Nat) :
    (splice xs k ys)[i]? = if k ≤ i ∧ i < k + ys.length then ys[i - k]? else xs[i]? := by
  have hk : (xs.take k).length = k := by simp; omega
  simp only [splice, List.append_assoc]
  by_cases before : i < k
  · rw [List.getElem?_append_left (by omega), List.getElem?_take_of_lt before,
      if_neg (by omega)]
  · rw [List.getElem?_append_right (by omega), hk]
    by_cases inside : i < k + ys.length
    · rw [List.getElem?_append_left (by omega), if_pos (by omega)]
    · rw [List.getElem?_append_right (by omega), List.getElem?_drop, if_neg (by omega)]
      congr 1
      omega

theorem set_eq_splice {xs : List α} {k : Nat} {x : α} (h : k < xs.length) :
    xs.set k x = splice xs k [x] := by
  simp [splice, List.set_eq_take_append_cons_drop, h]

/-- Overwriting two adjacent windows is overwriting their union. -/
theorem splice_splice {xs ys zs : List α} {k : Nat} (h : k + ys.length + zs.length ≤ xs.length) :
    splice (splice xs k ys) (k + ys.length) zs = splice xs k (ys ++ zs) := by
  apply List.ext_getElem?
  intro i
  have hlen : (splice xs k ys).length = xs.length := splice_length (by omega)
  rw [splice_getElem? (by omega), splice_getElem? (by omega), splice_getElem? (by simp; omega)]
  simp only [List.length_append]
  by_cases first : k ≤ i ∧ i < k + ys.length
  · rw [if_neg (by omega), if_pos first, if_pos (by omega), List.getElem?_append_left (by omega)]
  · by_cases second : k + ys.length ≤ i ∧ i < k + ys.length + zs.length
    · rw [if_pos second, if_pos (by omega), List.getElem?_append_right (by omega)]
      congr 1
      omega
    · rw [if_neg second, if_neg first, if_neg (by omega)]

end Splice

abbrev Mem := Nat → UInt8

namespace Mem

def load (m : Mem) (a n : Nat) : List UInt8 := (List.range n).map fun i => m (a + i)

def store (m : Mem) (a : Nat) (bs : List UInt8) : Mem := fun x =>
  if a ≤ x then (bs[x - a]?).getD (m x) else m x

/-- Set `n` bytes to zero. -/
def clear (m : Mem) (a n : Nat) : Mem := fun x => if a ≤ x ∧ x < a + n then 0 else m x

def ofBytes : List UInt8 → Nat
  | [] => 0
  | b :: bs => b.toNat + 256 * ofBytes bs

/-- The `n` low bytes of a number, least significant first. -/
def toBytes : Nat → Nat → List UInt8
  | 0, _ => []
  | n + 1, v => UInt8.ofNat v :: toBytes n (v / 256)

def load64 (m : Mem) (a : Nat) : Nat := ofBytes (m.load a 8)

def store64 (m : Mem) (a v : Nat) : Mem := m.store a (toBytes 8 v)

@[simp] theorem load_length (m : Mem) (a n : Nat) : (m.load a n).length = n := by simp [load]

@[simp] theorem load_getElem (m : Mem) (a n i : Nat) (h : i < (m.load a n).length) :
    (m.load a n)[i] = m (a + i) := by simp [load]

@[simp] theorem toBytes_length (n v : Nat) : (toBytes n v).length = n := by
  induction n generalizing v with
  | zero => rfl
  | succ n ih => simp [toBytes, ih]

theorem ofBytes_toBytes (n v : Nat) : ofBytes (toBytes n v) = v % 256 ^ n := by
  induction n generalizing v with
  | zero => simp [toBytes, ofBytes, Nat.mod_one]
  | succ n ih =>
    have split : v % 256 ^ (n + 1) = v % 256 + 256 * (v / 256 % 256 ^ n) := by
      rw [pow_succ', Nat.mod_mul]
    simp [toBytes, ofBytes, ih, split]

theorem ofBytes_lt (bs : List UInt8) : ofBytes bs < 256 ^ bs.length := by
  induction bs with
  | nil => simp [ofBytes]
  | cons b bs ih =>
    have := b.toNat_lt
    simp only [ofBytes, List.length_cons, pow_succ']
    omega

theorem load64_lt (m : Mem) (a : Nat) : m.load64 a < 2 ^ 64 := by
  simpa [load64] using ofBytes_lt (m.load a 8)

/-! ## Agreement on ranges -/

/-- The two memories hold the same `n` bytes from `a`. -/
def SameOn (m m' : Mem) (a n : Nat) : Prop := ∀ x, a ≤ x → x < a + n → m' x = m x

theorem SameOn.refl (m : Mem) (a n : Nat) : SameOn m m a n := fun _ _ _ => rfl

theorem SameOn.trans {m₁ m₂ m₃ : Mem} {a n : Nat} (h : SameOn m₁ m₂ a n)
    (h' : SameOn m₂ m₃ a n) : SameOn m₁ m₃ a n :=
  fun x lo hi => (h' x lo hi).trans (h x lo hi)

theorem SameOn.mono {m m' : Mem} {a n b k : Nat} (h : SameOn m m' a n) (lo : a ≤ b)
    (hi : b + k ≤ a + n) : SameOn m m' b k :=
  fun x hx hx' => h x (by omega) (by omega)

theorem SameOn.load {m m' : Mem} {a n : Nat} (h : SameOn m m' a n) :
    m'.load a n = m.load a n := by
  apply List.ext_getElem (by simp)
  intro i hi _
  simpa using h (a + i) (by omega) (by simp at hi; omega)

theorem SameOn.load64 {m m' : Mem} {a : Nat} (h : SameOn m m' a 8) :
    m'.load64 a = m.load64 a := by
  rw [Mem.load64, Mem.load64, h.load]

theorem store_sameOn {m : Mem} {a : Nat} {bs : List UInt8} {b n : Nat}
    (h : b + n ≤ a ∨ a + bs.length ≤ b) : SameOn m (m.store a bs) b n := by
  intro x lo hi
  unfold store
  split
  · rw [List.getElem?_eq_none (by omega)]; rfl
  · rfl

theorem store64_sameOn {m : Mem} {a v b n : Nat} (h : b + n ≤ a ∨ a + 8 ≤ b) :
    SameOn m (m.store64 a v) b n := store_sameOn (by simpa using h)

theorem clear_sameOn {m : Mem} {a k b n : Nat} (h : b + n ≤ a ∨ a + k ≤ b) :
    SameOn m (m.clear a k) b n := by
  intro x lo hi
  exact if_neg (by omega)

theorem store_apply_inside {m : Mem} {a : Nat} {bs : List UInt8} {i : Nat} (h : i < bs.length) :
    m.store a bs (a + i) = bs[i] := by
  simp [store, h]

theorem load_store_same (m : Mem) (a : Nat) (bs : List UInt8) :
    (m.store a bs).load a bs.length = bs := by
  apply List.ext_getElem (by simp)
  intro i _ hi
  simpa using store_apply_inside hi

theorem load64_store64_same (m : Mem) (a v : Nat) : (m.store64 a v).load64 a = v % 2 ^ 64 := by
  have key := load_store_same m a (toBytes 8 v)
  rw [toBytes_length] at key
  rw [load64, store64, key, ofBytes_toBytes]
  norm_num

theorem load64_store64_of_lt {m : Mem} {a v : Nat} (h : v < 2 ^ 64) :
    (m.store64 a v).load64 a = v := by rw [load64_store64_same, Nat.mod_eq_of_lt h]

theorem clear_apply {m : Mem} {a n x : Nat} (lo : a ≤ x) (hi : x < a + n) :
    m.clear a n x = 0 := if_pos ⟨lo, hi⟩

theorem load64_eq_zero {m : Mem} {a : Nat} (zero : ∀ i < 8, m (a + i) = 0) : m.load64 a = 0 := by
  have zeros : m.load a 8 = List.replicate 8 0 := by
    apply List.ext_getElem (by simp)
    intro i hi _
    rw [load_length] at hi
    rw [load_getElem, List.getElem_replicate, zero i hi]
  rw [load64, zeros]
  rfl

theorem clear_load64 {m : Mem} {a n b : Nat} (lo : a ≤ b) (hi : b + 8 ≤ a + n) :
    (m.clear a n).load64 b = 0 :=
  load64_eq_zero fun _ _ => clear_apply (by omega) (by omega)

end Mem

end CapsuleOS.Lib
