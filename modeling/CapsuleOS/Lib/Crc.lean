import Mathlib.Tactic

/-!
# Table-driven registers

A register of `w` bits takes a message byte by byte: the lowest byte is shifted out and, together with
the next byte of the message, selects the word of a table that is added in.

Reasoning is backwards: if the highest bytes of the table words are pairwise different, then the
highest bytes of a register determine which word was added last. So a register determines as many bytes
of the message as fit into it, given where it started, and equal messages never make registers equal
again (`run_burst`, `run_injective`).

The words of the table are what eight steps of a bitwise register make of the bytes. A step is linear, so the
bits above the lowest byte are only shifted meanwhile, and both registers are the same (`run_eq_bitwise`).
-/
namespace CapsuleOS.Lib.Crc

variable {w : Nat} (table : BitVec 8 → BitVec w)

/-- The word that is selected. -/
def index (c : BitVec w) (b : BitVec 8) : BitVec 8 := c.setWidth 8 ^^^ b

def step (c : BitVec w) (b : BitVec 8) : BitVec w := (c >>> 8) ^^^ table (index c b)

def run (c : BitVec w) (bs : List (BitVec 8)) : BitVec w := bs.foldl (step table) c

/-- The words selected by a message. -/
def indices (c : BitVec w) : List (BitVec 8) → List (BitVec 8)
  | [] => []
  | b :: bs => index c b :: indices (step table c b) bs

/-- The highest bytes of the words are pairwise different. -/
def TopsDiffer : Prop := ∀ x y, table x >>> (w - 8) = table y >>> (w - 8) → x = y

variable {table} {c c' : BitVec w} {b b' : BitVec 8} {bs bs' : List (BitVec 8)} {s : Nat}

theorem run_append (c : BitVec w) (bs bs' : List (BitVec 8)) :
    run table c (bs ++ bs') = run table (run table c bs) bs' := List.foldl_append

/-- The high bits after a step tell the word and the bits before. -/
theorem step_back (tops : TopsDiffer table) (room : s + 8 ≤ w)
    (eq : step table c b >>> s = step table c' b' >>> s) :
    index c b = index c' b' ∧ c >>> (s + 8) = c' >>> (s + 8) := by
  have split : ∀ (c : BitVec w) (b : BitVec 8),
      step table c b >>> s = (c >>> (s + 8)) ^^^ (table (index c b) >>> s) := by
    intro c b
    rw [step, BitVec.ushiftRight_xor_distrib, ← BitVec.shiftRight_add, Nat.add_comm 8 s]
  -- shifted further, only the highest byte of the word is left
  have top : ∀ (c : BitVec w) (b : BitVec 8),
      (step table c b >>> s) >>> (w - 8 - s) = table (index c b) >>> (w - 8) := by
    intro c b
    have gone : c >>> w = 0#w := BitVec.ushiftRight_eq_zero le_rfl
    have sum : s + 8 + (w - 8 - s) = w := by omega
    have sum' : s + (w - 8 - s) = w - 8 := by omega
    rw [split, BitVec.ushiftRight_xor_distrib, ← BitVec.shiftRight_add, ← BitVec.shiftRight_add, sum,
      sum', gone, BitVec.zero_xor]
  have same : index c b = index c' b' := by
    apply tops
    rw [← top, ← top, eq]
  refine ⟨same, ?_⟩
  rw [split, split, same] at eq
  exact (BitVec.xor_left_inj _).mp eq

/-- The high bits after a message tell the words and the bits before. -/
theorem run_back (tops : TopsDiffer table) (length : bs.length = bs'.length)
    (room : s + 8 * bs.length ≤ w) (eq : run table c bs >>> s = run table c' bs' >>> s) :
    indices table c bs = indices table c' bs' ∧ c >>> (s + 8 * bs.length) = c' >>> (s + 8 * bs.length) := by
  induction bs generalizing c c' bs' with
  | nil =>
    obtain rfl : bs' = [] := List.length_eq_zero_iff.mp length.symm
    exact ⟨rfl, eq⟩
  | cons b bs ih =>
    match bs', length with
    | b' :: bs', length =>
      rw [List.length_cons] at room
      have eq' : run table (step table c b) bs >>> s = run table (step table c' b') bs' >>> s := eq
      obtain ⟨rest, before⟩ := ih (by simpa using length) (by omega) eq'
      obtain ⟨first, before⟩ := step_back tops (by omega) before
      refine ⟨?_, ?_⟩
      · rw [indices, indices, first, rest]
      · rw [List.length_cons, Nat.mul_succ, ← Nat.add_assoc]
        exact before

theorem index_inj (eq : index c b = index c b') : b = b' := (BitVec.xor_right_inj _).mp eq

/-- From one register on, the words tell the message. -/
theorem indices_inj (eq : indices table c bs = indices table c bs') : bs = bs' := by
  induction bs generalizing c bs' with
  | nil =>
    cases bs' with
    | nil => rfl
    | cons b' bs' => cases eq
  | cons b bs ih =>
    cases bs' with
    | nil => cases eq
    | cons b' bs' =>
      simp only [indices, List.cons.injEq] at eq
      obtain rfl := index_inj eq.1
      rw [ih eq.2]

/-- Messages of the same length that fit into the register are told apart. -/
theorem run_burst (tops : TopsDiffer table) (length : bs.length = bs'.length) (room : 8 * bs.length ≤ w)
    (eq : run table c bs = run table c bs') : bs = bs' := by
  have shifted : run table c bs >>> 0 = run table c bs' >>> 0 := by rw [eq]
  exact indices_inj (run_back tops length (by omega) shifted).1

theorem step_injective (tops : TopsDiffer table) (room : 8 ≤ w)
    (eq : step table c b = step table c' b) : c = c' := by
  have shifted : step table c b >>> 0 = step table c' b >>> 0 := by rw [eq]
  obtain ⟨low, high⟩ := step_back tops (by omega) shifted
  have low : c.setWidth 8 = c'.setWidth 8 := (BitVec.xor_left_inj _).mp low
  apply BitVec.eq_of_getLsbD_eq
  intro i inside
  by_cases small : i < 8
  · have bit := congrArg (·.getLsbD i) low
    simpa [BitVec.getLsbD_setWidth, small] using bit
  · have bit := congrArg (·.getLsbD (i - 8)) high
    have place : 8 + (i - 8) = i := by omega
    simpa only [BitVec.getLsbD_ushiftRight, Nat.zero_add, place] using bit

/-- A message keeps registers different. -/
theorem run_injective (tops : TopsDiffer table) (room : 8 ≤ w)
    (eq : run table c bs = run table c' bs) : c = c' := by
  induction bs generalizing c c' with
  | nil => exact eq
  | cons b bs ih => exact step_injective tops room (ih eq)

/-- A change within as many bytes as the register has is seen at the end of every message. -/
theorem run_ne_of_burst (tops : TopsDiffer table) (room : 8 ≤ w) {pre suf : List (BitVec 8)}
    (length : bs.length = bs'.length) (fits : 8 * bs.length ≤ w) (ne : bs ≠ bs') :
    run table c (pre ++ bs ++ suf) ≠ run table c (pre ++ bs' ++ suf) := by
  intro eq
  simp only [run_append] at eq
  exact ne (run_burst tops length fits (run_injective tops room eq))

/-! ## Bit by bit -/

section Bitwise

variable {poly : BitVec w}

/-- The lowest bit is shifted out, and a set one adds the polynomial. -/
def shiftBit (poly c : BitVec w) : BitVec w := if c.getLsbD 0 then (c >>> 1) ^^^ poly else c >>> 1

/-- A byte is added to the lowest bits, which then are shifted out. -/
def byteBits (poly c : BitVec w) (b : BitVec 8) : BitVec w := (shiftBit poly)^[8] (c ^^^ b.setWidth w)

def bitwise (poly c : BitVec w) (bs : List (BitVec 8)) : BitVec w := bs.foldl (byteBits poly) c

/-- The words of a table for the polynomial. -/
def IsTable (poly : BitVec w) (table : BitVec 8 → BitVec w) : Prop :=
  ∀ x, table x = (shiftBit poly)^[8] (x.setWidth w)

theorem shiftBit_xor (c d : BitVec w) : shiftBit poly (c ^^^ d) = shiftBit poly c ^^^ shiftBit poly d := by
  unfold shiftBit
  rw [BitVec.getLsbD_xor, BitVec.ushiftRight_xor_distrib]
  have twice (a b : BitVec w) : a ^^^ b = a ^^^ poly ^^^ (b ^^^ poly) := by
    rw [BitVec.xor_assoc, BitVec.xor_comm b, ← BitVec.xor_assoc poly, BitVec.xor_self, BitVec.zero_xor]
  cases c.getLsbD 0 <;> cases d.getLsbD 0
  · rfl
  · exact BitVec.xor_assoc ..
  · simp only [Bool.xor_false, if_true, Bool.false_eq_true, if_false]
    rw [BitVec.xor_assoc, BitVec.xor_comm (d >>> 1), ← BitVec.xor_assoc]
  · exact twice ..

theorem shiftBits_xor (n : Nat) (c d : BitVec w) :
    (shiftBit poly)^[n] (c ^^^ d) = (shiftBit poly)^[n] c ^^^ (shiftBit poly)^[n] d := by
  induction n generalizing c d with
  | zero => rfl
  | succ n ih => rw [Function.iterate_succ_apply, shiftBit_xor, ih, Function.iterate_succ_apply,
      Function.iterate_succ_apply]

/-- Zeros are only shifted out. -/
theorem shiftBits_zeros {n : Nat} {c : BitVec w} (zeros : ∀ i < n, c.getLsbD i = false) :
    (shiftBit poly)^[n] c = c >>> n := by
  induction n with
  | zero => exact (BitVec.ushiftRight_zero c).symm
  | succ n ih =>
    have low : (c >>> n).getLsbD 0 = false := by
      rw [BitVec.getLsbD_ushiftRight]
      exact zeros n (Nat.lt_succ_self n)
    rw [Function.iterate_succ_apply', ih fun i lt => zeros i (Nat.lt_succ_of_lt lt), shiftBit, low,
      if_neg (by simp), ← BitVec.shiftRight_add]

/-- The register with the byte added in is the index and what is above it. -/
theorem xor_eq_index (c : BitVec w) (b : BitVec 8) :
    c ^^^ b.setWidth w = (c >>> 8 <<< 8) ^^^ (index c b).setWidth w := by
  apply BitVec.eq_of_getLsbD_eq
  intro i inside
  simp only [index, BitVec.getLsbD_xor, BitVec.getLsbD_setWidth, BitVec.getLsbD_shiftLeft,
    BitVec.getLsbD_ushiftRight]
  by_cases low : i < 8
  · simp [low, inside]
  · have high : 8 + (i - 8) = i := by omega
    simp [low, inside, high]

theorem step_eq_byteBits (isTable : IsTable poly table) (c : BitVec w) (b : BitVec 8) :
    step table c b = byteBits poly c b := by
  have zeros : ∀ i < 8, (c >>> 8 <<< 8).getLsbD i = false := fun i lt => by
    simp [lt]
  have back : c >>> 8 <<< 8 >>> 8 = c >>> 8 := by
    apply BitVec.eq_of_getLsbD_eq
    intro i inside
    simp only [BitVec.getLsbD_ushiftRight, BitVec.getLsbD_shiftLeft]
    by_cases room : 8 + i < w
    · simp [room]
    · simp [room, BitVec.getLsbD_of_ge c (8 + i) (by omega)]
  rw [byteBits, xor_eq_index, shiftBits_xor, shiftBits_zeros zeros, back, ← isTable, step]

/-- The table makes no difference. -/
theorem run_eq_bitwise (isTable : IsTable poly table) (c : BitVec w) (bs : List (BitVec 8)) :
    run table c bs = bitwise poly c bs := by
  induction bs generalizing c with
  | nil => rfl
  | cons b bs ih =>
    have first : run table c (b :: bs) = run table (step table c b) bs := rfl
    rw [first, ih, step_eq_byteBits isTable]
    rfl

/-- Words of a linear table differ if no word but the first begins with zeros. -/
theorem topsDiffer_of_isTable (isTable : IsTable poly table)
    (top : ∀ x, table x >>> (w - 8) = 0#w → x = 0#8) : TopsDiffer table := by
  intro x y eq
  have sum : table (x ^^^ y) = table x ^^^ table y := by
    rw [isTable, isTable x, isTable y, ← shiftBits_xor, BitVec.setWidth_xor]
  have zero : x ^^^ y = 0#8 := by
    apply top
    rw [sum, BitVec.ushiftRight_xor_distrib, eq, BitVec.xor_self]
  exact BitVec.xor_eq_zero_iff.mp zero

end Bitwise

end CapsuleOS.Lib.Crc
