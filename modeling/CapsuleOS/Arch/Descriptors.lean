import CapsuleOS.Arch.PageTable
import CapsuleOS.Memory.VmoLayout

/-!
# Reading descriptors back

What the walk gets from a descriptor that was written, and which entries a write changes. `ref` reads
a descriptor as a reference to a table of the next level.
-/
namespace CapsuleOS

open Lib

/-- The table that a descriptor refers to. -/
def ref (e : Nat) : Option Nat := if isValid e && isTable e then some (pteAddr e) else none

theorem ref_eq_some {e pa : Nat} :
    ref e = some pa ↔ (isValid e = true ∧ isTable e = true) ∧ pteAddr e = pa := by
  simp [ref]

theorem ref_eq_none {e : Nat} : ref e = none ↔ (isValid e = true → isTable e = false) := by
  simp [ref]

/-! ## Bits -/

theorem testBit_pteAddrMask (i : Nat) : pteAddrMask.testBit i = decide (12 ≤ i ∧ i < 48) := by
  have shape : pteAddrMask = (2 ^ 36 - 1) <<< 12 := by decide
  rw [shape, Nat.testBit_shiftLeft, Nat.testBit_two_pow_sub_one]
  grind

theorem testBit_pteAddr (e i : Nat) :
    (pteAddr e).testBit i = (e.testBit i && decide (12 ≤ i ∧ i < 48)) := by
  rw [pteAddr, Nat.testBit_and, testBit_pteAddrMask]

theorem testBit_of_lt {n k i : Nat} (lt : n < 2 ^ k) (le : k ≤ i) : n.testBit i = false :=
  Nat.testBit_lt_two_pow (lt.trans_le (Nat.pow_le_pow_right (by decide) le))

theorem pteAddr_of_aligned {pa : Nat} (aligned : pageSize ∣ pa) (lt : pa < 2 ^ 48) :
    pteAddr pa = pa := by
  obtain ⟨k, rfl⟩ := aligned
  apply Nat.eq_of_testBit_eq
  intro i
  have low : (pageSize * k).testBit i = (decide (12 ≤ i) && k.testBit (i - 12)) := by
    rw [show pageSize * k = 2 ^ 12 * k from rfl, Nat.testBit_two_pow_mul]
  rw [testBit_pteAddr]
  by_cases lo : 12 ≤ i
  · by_cases hi : i < 48
    · simp [lo, hi]
    · simp [lo, hi, testBit_of_lt lt (by omega : 48 ≤ i)]
  · simp [low, lo]

theorem pteAddr_aligned (e : Nat) : pageSize ∣ pteAddr e := by
  apply Nat.dvd_of_mod_eq_zero
  apply Nat.eq_of_testBit_eq
  intro i
  rw [show pageSize = 2 ^ 12 from rfl, Nat.testBit_mod_two_pow, testBit_pteAddr]
  grind

/-- Adding bits below the address does not change the address. -/
theorem pteAddr_or_low {e low : Nat} (lt : low < 2 ^ 12) : pteAddr (e ||| low) = pteAddr e := by
  apply Nat.eq_of_testBit_eq
  intro i
  simp only [testBit_pteAddr, Nat.testBit_or]
  by_cases lo : 12 ≤ i
  · simp [testBit_of_lt lt lo]
  · simp [lo]

/-- Descriptors are stored as 64-bit words. -/
theorem pteAddr_mod (e : Nat) : pteAddr (e % 2 ^ 64) = pteAddr e := by
  apply Nat.eq_of_testBit_eq
  intro i
  simp only [testBit_pteAddr, Nat.testBit_mod_two_pow]
  grind

theorem isValid_mod (e : Nat) : isValid (e % 2 ^ 64) = isValid e := by
  simp only [isValid, Nat.testBit_mod_two_pow]
  simp

theorem isTable_mod (e : Nat) : isTable (e % 2 ^ 64) = isTable e := by
  simp only [isTable, Nat.testBit_mod_two_pow]
  simp

theorem ref_mod (e : Nat) : ref (e % 2 ^ 64) = ref e := by
  simp only [ref, isValid_mod, isTable_mod, pteAddr_mod]

theorem ref_zero : ref 0 = none := by decide

theorem pteAddr_pteAddr (e : Nat) : pteAddr (pteAddr e) = pteAddr e := by
  apply Nat.eq_of_testBit_eq
  intro i
  simp only [testBit_pteAddr]
  grind

theorem isValid_tableEntry (pa : Nat) : isValid (tableEntry pa) = true := by
  have bit : pteTypeTable.testBit 0 = true := by decide
  simp only [isValid, tableEntry, Nat.testBit_or, bit, Bool.or_true]

theorem isTable_tableEntry (pa : Nat) : isTable (tableEntry pa) = true := by
  have bit : pteTypeTable.testBit 1 = true := by decide
  simp only [isTable, tableEntry, Nat.testBit_or, bit, Bool.or_true]

theorem ref_tableEntry {pa : Nat} (aligned : pageSize ∣ pa) (lt : pa < 2 ^ 48) :
    ref (tableEntry pa) = some pa := by
  refine ref_eq_some.mpr ⟨⟨isValid_tableEntry pa, isTable_tableEntry pa⟩, ?_⟩
  rw [tableEntry, pteAddr_or_low (by decide), pteAddr_or_low (by decide), pteAddr_pteAddr,
    pteAddr_of_aligned aligned lt]

/-- The parts of a 1 GiB block are blocks. -/
theorem isTable_blockPart {kept size original i : Nat} (block : isTable original = false) :
    isTable (blockPart kept size pteTypeBlock original i) = false := by
  have bits : pteValid.testBit 1 = false ∧ pteTypeBlock.testBit 1 = false ∧
      pteApUser.testBit 1 = false := by decide
  simp only [isTable] at block
  simp [isTable, blockPart, testBit_pteAddr, bits, block]

theorem isTable_l1Block (pa : Nat) (attr : MemAttr) : isTable (l1Block pa attr) = false := by
  have bits : pteValid.testBit 1 = false ∧ pteTypeBlock.testBit 1 = false ∧
      pteXn.testBit 1 = false := by decide
  have attrBit : (memAttrBits attr).testBit 1 = false := by cases attr <;> decide
  simp [isTable, l1Block, testBit_pteAddr, bits, attrBit]

theorem isValid_pageEntry (pa : Nat) (flags : MapFlags) : isValid (pageEntry pa flags) = true := by
  have bit : pteTypePage.testBit 0 = true := by decide
  simp only [isValid, pageEntry, Nat.testBit_or, bit, Bool.or_true, Bool.true_or]

theorem pteAddr_pageEntry {pa : Nat} (aligned : pageSize ∣ pa) (lt : pa < 2 ^ 48) (flags : MapFlags) :
    pteAddr (pageEntry pa flags) = pa := by
  have addr : pteAddr (pteAddr pa ||| pteValid ||| pteTypePage) = pa := by
    rw [pteAddr_or_low (by decide), pteAddr_or_low (by decide), pteAddr_pteAddr,
      pteAddr_of_aligned aligned lt]
  have attr : pteAddr (pteAttrBits flags) = 0 := by
    obtain ⟨attr, r, w, x, u⟩ := flags
    cases attr <;> cases r <;> cases w <;> cases x <;> cases u <;> decide
  rw [pageEntry, pteAddr, Nat.and_or_distrib_right]
  change pteAddr _ ||| pteAddr _ = _
  rw [addr, attr, Nat.or_zero]

/-! ## Entries in memory -/

section Entries

variable {m m' : Mem}

theorem readPte_sameOn {p i : Nat} (same : m.SameOn m' p pageSize) (hi : i < 512) :
    readPte m' p i = readPte m p i :=
  (same.mono (by omega) (by unfold pageSize; omega) : m.SameOn m' (p + i * 8) 8).load64

theorem writePte_sameOn {p q i e : Nat} (hp : pageSize ∣ p) (hq : pageSize ∣ q) (ne : q ≠ p)
    (hi : i < 512) : m.SameOn (writePte m p i e) q pageSize := by
  have apart := page_disjoint hp hq (Ne.symm ne)
  exact Mem.store64_sameOn (by unfold pageSize at *; omega)

theorem readPte_writePte_same (m : Mem) (p i e : Nat) : readPte (writePte m p i e) p i = e % 2 ^ 64 :=
  Mem.load64_store64_same m _ e

theorem readPte_writePte_of_ne {p i j e : Nat} (ne : j ≠ i) :
    readPte (writePte m p i e) p j = readPte m p j :=
  (Mem.store64_sameOn (by omega) : m.SameOn (writePte m p i e) (p + j * 8) 8).load64

/-- Every entry of a fresh page is zero. -/
theorem readPte_claim {mm : Mm} {tag : PageTag} {pa i : Nat} (hi : i < 512) :
    readPte (mm.claim tag pa).mem pa i = 0 :=
  Mem.clear_load64 (by omega) (by omega)

end Entries

end CapsuleOS
