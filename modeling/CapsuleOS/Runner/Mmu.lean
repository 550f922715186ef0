import CapsuleOS.Lib.Profile
import CapsuleOS.Lib.Words

/-!
# The memory of the runner

RAM, and a serial port that writes are taken out for. Reads outside the RAM give zero and writes outside
it are lost. The accesses of several bytes add to the address: where the sum overflows, a build with overflow
checks panics.

`load` and `store` access memory byte by byte, lowest byte first; the accesses of the source are cases of
these where they reach their last byte (`read32_eq`, `read64_eq`, `write64_eq`). What a store does is told by the byte at each address, so that
two stores do the same exactly if they agree where there is something to write to (`store_eq_iff`).
-/
namespace CapsuleOS.Runner

open Lib

abbrev Addr := BitVec 64

def uartBase : Addr := 0x09000000
def ramDefaultBase : Addr := 0x40000000
def ramSize : Nat := 16 * 1024 * 1024

/-- The base of the RAM is the default one, which nothing changes. -/
structure Mmu where
  ram : Fin ramSize → BitVec 8
  /-- What was written to the serial port. -/
  uart : List (BitVec 8)

namespace Mmu

def new : Mmu := ⟨fun _ => 0, []⟩

variable {m : Mmu} {a : Addr}

/-- The place in the RAM that an address means. -/
def slot? (addr : Addr) : Option (Fin ramSize) :=
  if inside : ramDefaultBase.toNat ≤ addr.toNat ∧ addr.toNat < ramDefaultBase.toNat + ramSize then
    some ⟨addr.toNat - ramDefaultBase.toNat, by omega⟩
  else none

def read8 (m : Mmu) (addr : Addr) : BitVec 8 :=
  match slot? addr with
  | some i => m.ram i
  | none => 0

def read32 (profile : Profile) (m : Mmu) (addr : Addr) : Option (BitVec 32) := do
  let b0 := (m.read8 addr).setWidth 32
  let b1 := (m.read8 (← profile.addWord addr 1)).setWidth 32
  let b2 := (m.read8 (← profile.addWord addr 2)).setWidth 32
  let b3 := (m.read8 (← profile.addWord addr 3)).setWidth 32
  return b0 ||| (b1 <<< 8) ||| (b2 <<< 16) ||| (b3 <<< 24)

def read64 (profile : Profile) (m : Mmu) (addr : Addr) : Option (BitVec 64) := do
  let w0 := (← m.read32 profile addr).setWidth 64
  let w1 := (← m.read32 profile (← profile.addWord addr 4)).setWidth 64
  return w0 ||| (w1 <<< 32)

def write8 (m : Mmu) (addr : Addr) (val : BitVec 8) : Mmu :=
  if addr = uartBase then { m with uart := m.uart ++ [val] }
  else
    match slot? addr with
    | some i => { m with ram := Function.update m.ram i val }
    | none => m

def write32 (profile : Profile) (m : Mmu) (addr : Addr) (val : BitVec 32) : Option Mmu := do
  let m := m.write8 addr ((val &&& 0xFF).setWidth 8)
  let m := m.write8 (← profile.addWord addr 1) (((val >>> 8) &&& 0xFF).setWidth 8)
  let m := m.write8 (← profile.addWord addr 2) (((val >>> 16) &&& 0xFF).setWidth 8)
  return m.write8 (← profile.addWord addr 3) (((val >>> 24) &&& 0xFF).setWidth 8)

def write64 (profile : Profile) (m : Mmu) (addr : Addr) (val : BitVec 64) : Option Mmu := do
  let m ← m.write32 profile addr ((val &&& 0xFFFFFFFF).setWidth 32)
  m.write32 profile (← profile.addWord addr 4) ((val >>> 32).setWidth 32)

/-! ## Byte by byte -/

/-- The address `k` bytes further on. -/
def at_ (a : Addr) (k : Nat) : Addr := a + BitVec.ofNat 64 k

/-- The number in `n` bytes, lowest byte first. -/
def load (m : Mmu) (a : Addr) : Nat → Nat
  | 0 => 0
  | n + 1 => m.load a n + (m.read8 (at_ a n)).toNat * 256 ^ n

/-- Write the `n` low bytes of a number, lowest byte first. -/
def store (m : Mmu) (a : Addr) (val : Nat) : Nat → Mmu
  | 0 => m
  | n + 1 => (m.store a val n).write8 (at_ a n) (BitVec.ofNat 8 (val / 256 ^ n))

theorem at_zero (a : Addr) : at_ a 0 = a := BitVec.add_zero a

theorem at_add (a : Addr) (k n : Nat) : at_ (at_ a k) n = at_ a (k + n) := by
  rw [at_, at_, at_, BitVec.add_assoc, ← BitVec.ofNat_add]

theorem at_inj {k n : Nat} (hk : k < 2 ^ 64) (hn : n < 2 ^ 64) : at_ a k = at_ a n ↔ k = n := by
  constructor
  · intro same
    have offsets : (BitVec.ofNat 64 k).toNat = (BitVec.ofNat 64 n).toNat :=
      congrArg BitVec.toNat (BitVec.add_right_inj a |>.mp same)
    rwa [BitVec.toNat_ofNat, BitVec.toNat_ofNat, Nat.mod_eq_of_lt hk, Nat.mod_eq_of_lt hn] at offsets
  · rintro rfl
    rfl

theorem load_lt (m : Mmu) (a : Addr) (n : Nat) : m.load a n < 256 ^ n := by
  induction n with
  | zero => exact Nat.one_pos
  | succ n ih =>
    have byte := Nat.mul_le_mul_right (256 ^ n) (Nat.le_of_lt_succ (m.read8 (at_ a n)).isLt)
    rw [load, pow_succ']
    omega

theorem load_add (m : Mmu) (a : Addr) (k n : Nat) :
    m.load a (k + n) = m.load a k + m.load (at_ a k) n * 256 ^ k := by
  induction n with
  | zero => simp [load]
  | succ n ih =>
    rw [Nat.add_succ, load, load, ih, at_add, pow_add]
    ring

theorem store_add (m : Mmu) (a : Addr) (v k n : Nat) :
    m.store a v (k + n) = (m.store a v k).store (at_ a k) (v / 256 ^ k) n := by
  induction n with
  | zero => rfl
  | succ n ih => rw [Nat.add_succ, store, store, ih, at_add, Nat.div_div_eq_div_mul, pow_add]

/-- A byte moved up within a word. -/
theorem toNat_raised {w v : Nat} (b : BitVec v) {k : Nat} (fits : v + k ≤ w) :
    (b.setWidth w <<< k).toNat = b.toNat <<< k := by
  have pos := Nat.two_pow_pos k
  have small : b.toNat * 2 ^ k < 2 ^ w := by
    have bound : 2 ^ v * 2 ^ k ≤ 2 ^ w := by
      rw [← pow_add]
      exact Nat.pow_le_pow_right (by decide) fits
    exact (Nat.mul_lt_mul_of_pos_right b.isLt pos).trans_le bound
  have width : b.toNat < 2 ^ w := (Nat.le_mul_of_pos_right _ pos).trans_lt small
  rw [BitVec.toNat_shiftLeft, BitVec.toNat_setWidth, Nat.mod_eq_of_lt width, Nat.shiftLeft_eq,
    Nat.mod_eq_of_lt small]

/-! The sums of the source. -/

theorem addWord_at {profile : Profile} {k : Nat} (small : k < 2 ^ 64) :
    profile.addWord a (BitVec.ofNat 64 k) = if profile.Reaches a (k + 1) then some (at_ a k) else none :=
  Profile.addWord_eq small

theorem reaches_at {profile : Profile} {k n : Nat} (near : profile.Reaches a (k + 1)) :
    profile.Reaches (at_ a k) n ↔ profile.Reaches a (k + n) := by
  unfold Profile.Reaches at *
  rcases near with release | inside
  · exact iff_of_true (.inl release) (.inl release)
  · have sum : (at_ a k).toNat = a.toNat + k := by
      rw [at_, BitVec.toNat_add, BitVec.toNat_ofNat, Nat.mod_eq_of_lt (by omega : k < 2 ^ 64),
        Nat.mod_eq_of_lt (by omega)]
    rw [sum, Nat.add_assoc]

theorem read32_eq (profile : Profile) (m : Mmu) (a : Addr) : m.read32 profile a =
    if profile.Reaches a 4 then some (BitVec.ofNat 32 (m.load a 4)) else none := by
  have word : (m.read8 a).setWidth 32 ||| ((m.read8 (at_ a 1)).setWidth 32 <<< 8) |||
      ((m.read8 (at_ a 2)).setWidth 32 <<< 16) ||| ((m.read8 (at_ a 3)).setWidth 32 <<< 24) =
        BitVec.ofNat 32 (m.load a 4) := by
    have b0 := (m.read8 a).isLt
    have b1 := (m.read8 (at_ a 1)).isLt
    have b2 := (m.read8 (at_ a 2)).isLt
    have low : ((m.read8 a).setWidth 32).toNat = (m.read8 a).toNat := by
      rw [BitVec.toNat_setWidth, Nat.mod_eq_of_lt (by omega)]
    have two : (m.read8 a).toNat ||| (m.read8 (at_ a 1)).toNat <<< 8 =
        (m.read8 a).toNat + (m.read8 (at_ a 1)).toNat * 2 ^ 8 := or_shiftLeft_eq _ b0
    have three := or_shiftLeft_eq (m.read8 (at_ a 2)).toNat
      (show (m.read8 a).toNat + (m.read8 (at_ a 1)).toNat * 2 ^ 8 < 2 ^ 16 by omega)
    have four := or_shiftLeft_eq (m.read8 (at_ a 3)).toNat (show (m.read8 a).toNat +
      (m.read8 (at_ a 1)).toNat * 2 ^ 8 + (m.read8 (at_ a 2)).toNat * 2 ^ 16 < 2 ^ 24 by omega)
    have whole : m.load a 4 = (m.read8 a).toNat + (m.read8 (at_ a 1)).toNat * 2 ^ 8 +
        (m.read8 (at_ a 2)).toNat * 2 ^ 16 + (m.read8 (at_ a 3)).toNat * 2 ^ 24 := by
      simp only [load, at_zero, Nat.zero_add, pow_zero, Nat.mul_one]
      rfl
    have small : m.load a 4 < 2 ^ 32 := m.load_lt a 4
    apply BitVec.eq_of_toNat_eq
    rw [BitVec.toNat_ofNat, Nat.mod_eq_of_lt small, BitVec.toNat_or, BitVec.toNat_or, BitVec.toNat_or, low,
      toNat_raised _ (by decide), toNat_raised _ (by decide), toNat_raised _ (by decide), two, three, four, whole]
  have second : profile.addWord a 1 = _ := addWord_at (by decide)
  have third : profile.addWord a 2 = _ := addWord_at (by decide)
  have fourth : profile.addWord a 3 = _ := addWord_at (by decide)
  simp only [read32, second, third, fourth, Option.bind_eq_bind, Option.pure_def]
  by_cases reached : profile.Reaches a 4
  · rw [if_pos (reached.mono (by decide)), if_pos (reached.mono (by decide)), if_pos reached, if_pos reached,
      ← word]
    rfl
  · rw [if_neg reached, if_neg reached]
    split_ifs <;> rfl

theorem read64_eq (profile : Profile) (m : Mmu) (a : Addr) : m.read64 profile a =
    if profile.Reaches a 8 then some (BitVec.ofNat 64 (m.load a 8)) else none := by
  have word : (BitVec.ofNat 32 (m.load a 4)).setWidth 64 ||| ((BitVec.ofNat 32 (m.load (at_ a 4) 4)).setWidth 64 <<< 32) =
      BitVec.ofNat 64 (m.load a 8) := by
    have lo : m.load a 4 < 2 ^ 32 := m.load_lt a 4
    have hi : m.load (at_ a 4) 4 < 2 ^ 32 := m.load_lt (at_ a 4) 4
    have low : ((BitVec.ofNat 32 (m.load a 4)).setWidth 64).toNat = m.load a 4 := by
      rw [BitVec.toNat_setWidth, BitVec.toNat_ofNat, Nat.mod_eq_of_lt lo, Nat.mod_eq_of_lt (by omega)]
    have small : m.load a 8 < 2 ^ 64 := m.load_lt a 8
    apply BitVec.eq_of_toNat_eq
    rw [BitVec.toNat_or, low, toNat_raised _ (by decide), BitVec.toNat_ofNat, BitVec.toNat_ofNat,
      Nat.mod_eq_of_lt hi, Nat.mod_eq_of_lt small, or_shiftLeft_eq _ lo, load_add m a 4 4]
    rfl
  have next : profile.addWord a 4 = _ := addWord_at (by decide)
  simp only [read64, next, read32_eq, Option.bind_eq_bind, Option.pure_def]
  by_cases near : profile.Reaches a 5
  · have behind : profile.Reaches (at_ a 4) 4 ↔ profile.Reaches a 8 := reaches_at near
    rw [if_pos (near.mono (by decide)), if_pos near]
    by_cases reached : profile.Reaches a 8
    · rw [if_pos reached, ← word]
      exact congrArg (Option.bind · _) (if_pos (behind.mpr reached))
    · rw [if_neg reached]
      exact congrArg (Option.bind · _) (if_neg (mt behind.mp reached))
  · have beyond : ¬profile.Reaches a 8 := fun reached => near (reached.mono (by decide))
    rw [if_neg near, if_neg beyond]
    split_ifs <;> rfl

/-- A byte of a word. -/
theorem byte_eq {w : Nat} (v : BitVec w) {k : Nat} (wide : 8 < w) :
    ((v >>> k) &&& BitVec.ofNat w (2 ^ 8 - 1)).setWidth 8 = BitVec.ofNat 8 (v.toNat / 2 ^ k) := by
  apply BitVec.eq_of_toNat_eq
  rw [BitVec.toNat_setWidth, toNat_field v wide, BitVec.toNat_ofNat]
  exact Nat.mod_mod _ _

theorem write32_eq (profile : Profile) (m : Mmu) (a : Addr) (v : BitVec 32) : m.write32 profile a v =
    if profile.Reaches a 4 then some (m.store a v.toNat 4) else none := by
  have b0 : (v &&& 0xFF).setWidth 8 = BitVec.ofNat 8 (v.toNat / 256 ^ 0) := byte_eq v (k := 0) (by decide)
  have b1 : ((v >>> 8) &&& 0xFF).setWidth 8 = BitVec.ofNat 8 (v.toNat / 256 ^ 1) := byte_eq v (by decide)
  have b2 : ((v >>> 16) &&& 0xFF).setWidth 8 = BitVec.ofNat 8 (v.toNat / 256 ^ 2) := byte_eq v (by decide)
  have b3 : ((v >>> 24) &&& 0xFF).setWidth 8 = BitVec.ofNat 8 (v.toNat / 256 ^ 3) := byte_eq v (by decide)
  have second : profile.addWord a 1 = _ := addWord_at (by decide)
  have third : profile.addWord a 2 = _ := addWord_at (by decide)
  have fourth : profile.addWord a 3 = _ := addWord_at (by decide)
  simp only [write32, b0, b1, b2, b3, second, third, fourth, Option.bind_eq_bind, Option.pure_def]
  by_cases reached : profile.Reaches a 4
  · rw [if_pos (reached.mono (by decide)), if_pos (reached.mono (by decide)), if_pos reached, if_pos reached]
    simp only [store, at_zero, Option.bind_some]
  · rw [if_neg reached, if_neg reached]
    split_ifs <;> rfl

theorem write64_eq (profile : Profile) (m : Mmu) (a : Addr) (v : BitVec 64) : m.write64 profile a v =
    if profile.Reaches a 8 then some (m.store a v.toNat 8) else none := by
  have low : ((v &&& 0xFFFFFFFF).setWidth 32).toNat = v.toNat % 2 ^ 32 := by
    rw [BitVec.toNat_setWidth, show (0xFFFFFFFF : BitVec 64) = BitVec.ofNat 64 (2 ^ 32 - 1) from rfl,
      toNat_lowField v (by decide), Nat.mod_mod]
  have high : ((v >>> 32).setWidth 32).toNat = v.toNat / 2 ^ 32 := by
    have small := v.isLt
    rw [BitVec.toNat_setWidth, BitVec.toNat_ushiftRight, Nat.shiftRight_eq_div_pow, Nat.mod_eq_of_lt (by omega)]
  -- of a number, the store takes the low bytes only
  have cut : m.store a (v.toNat % 2 ^ 32) 4 = m.store a v.toNat 4 := by
    have byte : ∀ k < 4, BitVec.ofNat 8 (v.toNat % 2 ^ 32 / 256 ^ k) = BitVec.ofNat 8 (v.toNat / 256 ^ k) := by
      intro k lt
      apply BitVec.eq_of_toNat_eq
      rw [BitVec.toNat_ofNat, BitVec.toNat_ofNat]
      interval_cases k <;> omega
    simp only [store]
    rw [byte 0 (by decide), byte 1 (by decide), byte 2 (by decide), byte 3 (by decide)]
  have whole : (m.store a v.toNat 4).store (at_ a 4) (v.toNat / 2 ^ 32) 4 = m.store a v.toNat 8 :=
    (store_add m a v.toNat 4 4).symm
  have next : profile.addWord a 4 = _ := addWord_at (by decide)
  simp only [write64, next, write32_eq, low, high, cut, Option.bind_eq_bind]
  by_cases near : profile.Reaches a 5
  · have behind : profile.Reaches (at_ a 4) 4 ↔ profile.Reaches a 8 := reaches_at near
    simp only [near.mono (by decide : 4 ≤ 5), near, if_true, Option.bind_some, behind, whole]
  · have beyond : ¬profile.Reaches a 8 := fun reached => near (reached.mono (by decide))
    rw [if_neg near, if_neg beyond]
    split_ifs <;> rfl

/-! ## What a store does -/

/-- Something is there to write to. -/
def Backed (a : Addr) : Prop := a = uartBase ∨ (slot? a).isSome

section Store

variable {v v' n k : Nat} {b : BitVec 8} {i : Fin ramSize}

/-- Different addresses mean different places. -/
theorem slot?_inj {a' : Addr} (here : slot? a = some i) (there : slot? a' = some i) : a = a' := by
  unfold slot? at here there
  split_ifs at here there with inside inside'
  have same := Fin.mk.inj ((Option.some.inj here).trans (Option.some.inj there).symm)
  apply BitVec.eq_of_toNat_eq
  omega

theorem write8_ram (ne : a ≠ uartBase) (here : slot? a = some i) : (m.write8 a b).ram i = b := by
  rw [write8, if_neg ne, here]
  exact Function.update_self _ _ _

theorem write8_ram_other (away : slot? a = some i → a = uartBase) : (m.write8 a b).ram i = m.ram i := by
  unfold write8
  split_ifs with serial
  · rfl
  · cases slot : slot? a with
    | none => rfl
    | some j =>
      have ne : i ≠ j := fun eq => serial (away (eq ▸ slot))
      exact Function.update_of_ne ne _ _

theorem write8_uart_other (ne : a ≠ uartBase) : (m.write8 a b).uart = m.uart := by
  rw [write8, if_neg ne]
  split <;> rfl

theorem store_ram_other (away : ∀ k < n, slot? (at_ a k) = some i → at_ a k = uartBase) :
    (m.store a v n).ram i = m.ram i := by
  induction n with
  | zero => rfl
  | succ n ih =>
    rw [store, write8_ram_other, ih fun k lt => away k (Nat.lt_succ_of_lt lt)]
    exact away n (Nat.lt_succ_self n)

theorem store_ram (small : n ≤ 2 ^ 64) (lt : k < n) (ne : at_ a k ≠ uartBase)
    (here : slot? (at_ a k) = some i) : (m.store a v n).ram i = BitVec.ofNat 8 (v / 256 ^ k) := by
  induction n with
  | zero => cases lt
  | succ n ih =>
    rcases Nat.lt_succ_iff_lt_or_eq.mp lt with before | rfl
    · rw [store, write8_ram_other, ih (by omega) before]
      intro there
      have same := slot?_inj here there
      rw [at_inj (by omega) (by omega)] at same
      omega
    · exact write8_ram ne here

theorem store_uart_other (away : ∀ k < n, at_ a k ≠ uartBase) : (m.store a v n).uart = m.uart := by
  induction n with
  | zero => rfl
  | succ n ih =>
    rw [store, write8_uart_other (away n (Nat.lt_succ_self n)), ih fun k lt => away k (Nat.lt_succ_of_lt lt)]

theorem store_uart (small : n ≤ 2 ^ 64) (lt : k < n) (serial : at_ a k = uartBase) :
    (m.store a v n).uart = m.uart ++ [BitVec.ofNat 8 (v / 256 ^ k)] := by
  have only : ∀ j, j < n → j ≠ k → at_ a j ≠ uartBase := fun j lt' ne eq =>
    ne ((at_inj (by omega) (by omega)).mp (eq.trans serial.symm))
  induction n with
  | zero => cases lt
  | succ n ih =>
    rcases Nat.lt_succ_iff_lt_or_eq.mp lt with before | rfl
    · rw [store, write8_uart_other (only n (Nat.lt_succ_self n) before.ne'),
        ih (by omega) before fun j lt' => only j (Nat.lt_succ_of_lt lt')]
    · rw [store, write8, if_pos serial, store_uart_other fun j lt' => only j (Nat.lt_succ_of_lt lt') lt'.ne]

/-- Two stores do the same exactly if they agree in every byte that is written somewhere. -/
theorem store_eq_iff (small : n ≤ 2 ^ 64) : m.store a v n = m.store a v' n ↔
    ∀ k < n, Backed (at_ a k) → BitVec.ofNat 8 (v / 256 ^ k) = BitVec.ofNat 8 (v' / 256 ^ k) := by
  constructor
  · intro same k lt backed
    by_cases serial : at_ a k = uartBase
    · have printed := congrArg uart same
      rw [store_uart small lt serial, store_uart small lt serial] at printed
      exact List.head_eq_of_cons_eq (List.append_cancel_left printed)
    · obtain ⟨i, here⟩ := Option.isSome_iff_exists.mp (backed.resolve_left serial)
      have stored := congrArg (fun m => ram m i) same
      rwa [store_ram small lt serial here, store_ram small lt serial here] at stored
  · intro agree
    have cells : (m.store a v n).ram = (m.store a v' n).ram := by
      funext i
      by_cases hit : ∃ k < n, slot? (at_ a k) = some i ∧ at_ a k ≠ uartBase
      · obtain ⟨k, lt, here, ne⟩ := hit
        rw [store_ram small lt ne here, store_ram small lt ne here]
        exact agree k lt (.inr (by rw [here]; rfl))
      · have away : ∀ k < n, slot? (at_ a k) = some i → at_ a k = uartBase := fun k lt here =>
          not_not.mp fun ne => hit ⟨k, lt, here, ne⟩
        rw [store_ram_other away, store_ram_other away]
    have printed : (m.store a v n).uart = (m.store a v' n).uart := by
      by_cases hit : ∃ k < n, at_ a k = uartBase
      · obtain ⟨k, lt, serial⟩ := hit
        rw [store_uart small lt serial, store_uart small lt serial, agree k lt (.inl serial)]
      · have away : ∀ k < n, at_ a k ≠ uartBase := fun k lt eq => hit ⟨k, lt, eq⟩
        rw [store_uart_other away, store_uart_other away]
    cases h : m.store a v n
    cases h' : m.store a v' n
    rw [h, h'] at cells printed
    cases cells
    cases printed
    rfl

end Store

end Mmu

end CapsuleOS.Runner
