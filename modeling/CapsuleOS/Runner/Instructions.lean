import CapsuleOS.Runner.Cpu

/-!
# The instructions

The encodings that the runner is for, and what the architecture says they do. Register 31 is the zero
register, and the stack pointer as a base and in additions. `conforms_iff` says which words the runner
executes as it should, and in which states.
-/
namespace CapsuleOS.Runner

open Lib

inductive Instr where
  | b (imm26 : BitVec 26)
  | movz (hw : BitVec 2) (imm16 : BitVec 16) (rd : BitVec 5)
  | addImm (sh : BitVec 1) (imm12 : BitVec 12) (rn rd : BitVec 5)
  | str (imm12 : BitVec 12) (rn rt : BitVec 5)
  | strb (imm12 : BitVec 12) (rn rt : BitVec 5)
  | ldr (imm12 : BitVec 12) (rn rt : BitVec 5)
  | ldrb (imm12 : BitVec 12) (rn rt : BitVec 5)
  | ret (rn : BitVec 5)

def Instr.encode : Instr → BitVec 32
  | .b imm26 => 0b000101#6 ++ imm26
  | .movz hw imm16 rd => 0b110100101#9 ++ hw ++ imm16 ++ rd
  | .addImm sh imm12 rn rd => 0b100100010#9 ++ sh ++ imm12 ++ rn ++ rd
  | .str imm12 rn rt => 0b1111100100#10 ++ imm12 ++ rn ++ rt
  | .strb imm12 rn rt => 0b0011100100#10 ++ imm12 ++ rn ++ rt
  | .ldr imm12 rn rt => 0b1111100101#10 ++ imm12 ++ rn ++ rt
  | .ldrb imm12 rn rt => 0b0011100101#10 ++ imm12 ++ rn ++ rt
  | .ret rn => 0b1101011001011111000000#22 ++ rn ++ 0#5

/-! ## The architecture -/

namespace Cpu

/-- A register, with the zero register at 31. -/
def x (cpu : Cpu) (n : BitVec 5) : BitVec 64 := if h : n.toNat < 31 then cpu.regs ⟨n.toNat, h⟩ else 0

def setX (cpu : Cpu) (n : BitVec 5) (val : BitVec 64) : Cpu :=
  if h : n.toNat < 31 then { cpu with regs := Function.update cpu.regs ⟨n.toNat, h⟩ val } else cpu

/-- A register, with the stack pointer at 31. -/
def xsp (cpu : Cpu) (n : BitVec 5) : BitVec 64 := if n = 31 then cpu.sp else cpu.x n

def setXsp (cpu : Cpu) (n : BitVec 5) (val : BitVec 64) : Cpu :=
  if n = 31 then { cpu with sp := val } else cpu.setX n val

/-- The address of an access of `scale` bytes. -/
def address (cpu : Cpu) (rn : BitVec 5) (imm12 : BitVec 12) (scale : Nat) : Addr :=
  cpu.xsp rn + BitVec.ofNat 64 (imm12.toNat * scale)

end Cpu

def Instr.exec (cpu : Cpu) (mmu : Mmu) : Instr → Cpu × Mmu
  | .b imm26 => (cpu.goTo (cpu.pc + (imm26 ++ 0#2).signExtend 64), mmu)
  | .movz hw imm16 rd => ((cpu.setX rd (imm16.setWidth 64 <<< (16 * hw.toNat))).goTo (cpu.pc + 4), mmu)
  | .addImm sh imm12 rn rd =>
    ((cpu.setXsp rd (cpu.xsp rn + imm12.setWidth 64 <<< (12 * sh.toNat))).goTo (cpu.pc + 4), mmu)
  | .str imm12 rn rt => (cpu.goTo (cpu.pc + 4), mmu.store (cpu.address rn imm12 8) (cpu.x rt).toNat 8)
  | .strb imm12 rn rt => (cpu.goTo (cpu.pc + 4), mmu.store (cpu.address rn imm12 1) (cpu.x rt).toNat 1)
  | .ldr imm12 rn rt =>
    ((cpu.setX rt (BitVec.ofNat 64 (mmu.load (cpu.address rn imm12 8) 8))).goTo (cpu.pc + 4), mmu)
  | .ldrb imm12 rn rt =>
    ((cpu.setX rt (BitVec.ofNat 64 (mmu.load (cpu.address rn imm12 1) 1))).goTo (cpu.pc + 4), mmu)
  | .ret rn => (cpu.goTo (cpu.x rn), mmu)

/-- The branch to itself. -/
def Instr.IsSelfBranch (i : Instr) : Prop := i = .b 0

/-- The step does what the architecture says, without a panic, and the runner stops for the branch to itself
alone. -/
def Conforms (profile : Profile) (cpu : Cpu) (mmu : Mmu) (i : Instr) : Prop :=
  ∃ after, cpu.step profile mmu = some after ∧ (after.cpu, after.mmu) = i.exec cpu mmu ∧
    (after.goesOn = false ↔ i.IsSelfBranch)

/-- Where the runner does what it should. Its RET goes to the next word, its branch to itself leaves the
program counter there as well, and for a zero register it transfers the stack pointer. Overflows checked, an
access of 64 bits must not run over the end of the address space. -/
def Instr.Handled (profile : Profile) (cpu : Cpu) (mmu : Mmu) : Instr → Prop
  | .b imm26 => imm26 ≠ 0
  | .movz _ _ _ => True
  | .addImm _ _ _ _ => True
  | .str imm12 rn rt => profile.Reaches (cpu.address rn imm12 8) 8 ∧
      (rt = 31 → ∀ k < 8, Mmu.Backed (Mmu.at_ (cpu.address rn imm12 8) k) →
        BitVec.ofNat 8 (cpu.sp.toNat / 256 ^ k) = 0)
  | .strb _ _ _ => True
  | .ldr imm12 rn rt => profile.Reaches (cpu.address rn imm12 8) 8 ∧
      (rt = 31 → mmu.load (cpu.address rn imm12 8) 8 = cpu.sp.toNat)
  | .ldrb imm12 rn rt => rt = 31 → mmu.load (cpu.address rn imm12 1) 1 = cpu.sp.toNat
  | .ret rn => cpu.x rn = cpu.pc + 4

/-! ## Decoding -/

section Tests

variable (w : BitVec 32)

theorem test_zero : w = 0 ↔ w.toNat = 0 := BitVec.toNat_inj.symm

theorem test_b : w >>> 26 = 0x5 ↔ w.toNat / 2 ^ 26 = 0x5 := by
  rw [← BitVec.toNat_inj, BitVec.toNat_ushiftRight, Nat.shiftRight_eq_div_pow]
  rfl

theorem test_movz : w &&& 0xFF800000 = 0xD2800000 ↔ w.toNat / 2 ^ 23 = 0x1A5 :=
  highBits_eq_iff w (k := 23) (c := 0x1A5) (by decide) (by decide)

theorem test_addImm : w &&& 0xFF000000 = 0x91000000 ↔ w.toNat / 2 ^ 24 = 0x91 :=
  highBits_eq_iff w (k := 24) (c := 0x91) (by decide) (by decide)

theorem test_str : w &&& 0xFFC00000 = 0xF9000000 ↔ w.toNat / 2 ^ 22 = 0x3E4 :=
  highBits_eq_iff w (k := 22) (c := 0x3E4) (by decide) (by decide)

theorem test_strb : w &&& 0xFFC00000 = 0x39000000 ↔ w.toNat / 2 ^ 22 = 0xE4 :=
  highBits_eq_iff w (k := 22) (c := 0xE4) (by decide) (by decide)

theorem test_ldr : w &&& 0xFFC00000 = 0xF9400000 ↔ w.toNat / 2 ^ 22 = 0x3E5 :=
  highBits_eq_iff w (k := 22) (c := 0x3E5) (by decide) (by decide)

theorem test_ldrb : w &&& 0xFFC00000 = 0x39400000 ↔ w.toNat / 2 ^ 22 = 0xE5 :=
  highBits_eq_iff w (k := 22) (c := 0xE5) (by decide) (by decide)

theorem test_ret : ¬ w &&& 0xFFFFFC1F = 0xD65F03C0 := and_ne_of_cleared (by decide)

end Tests

section Fields

variable {cpu : Cpu} {w : BitVec 32} {idx : BitVec 8} {n : BitVec 5} {v : BitVec 64}

theorem toNat_rdOf (w : BitVec 32) : (Cpu.rdOf w).toNat = w.toNat % 2 ^ 5 := by
  have field := toNat_lowField w (n := 5) (by decide)
  have small := Nat.mod_lt w.toNat (Nat.two_pow_pos 5)
  rw [Cpu.rdOf, BitVec.toNat_setWidth]
  exact (congrArg (· % 2 ^ 8) field).trans (Nat.mod_eq_of_lt (by omega))

theorem toNat_rnOf (w : BitVec 32) : (Cpu.rnOf w).toNat = w.toNat / 2 ^ 5 % 2 ^ 5 := by
  have field := toNat_field w (k := 5) (n := 5) (by decide)
  have small := Nat.mod_lt (w.toNat / 2 ^ 5) (Nat.two_pow_pos 5)
  rw [Cpu.rnOf, BitVec.toNat_setWidth]
  exact (congrArg (· % 2 ^ 8) field).trans (Nat.mod_eq_of_lt (by omega))

theorem toNat_imm12Of (w : BitVec 32) : (Cpu.imm12Of w).toNat = w.toNat / 2 ^ 10 % 2 ^ 12 := by
  have field := toNat_field w (k := 10) (n := 12) (by decide)
  have small := Nat.mod_lt (w.toNat / 2 ^ 10) (Nat.two_pow_pos 12)
  rw [Cpu.imm12Of, BitVec.toNat_setWidth]
  exact (congrArg (· % 2 ^ 64) field).trans (Nat.mod_eq_of_lt (by omega))

theorem getReg_eq (same : idx.toNat = n.toNat) : cpu.getReg idx = cpu.x n := by
  simp only [Cpu.getReg, Cpu.x, same]

theorem setReg_eq (same : idx.toNat = n.toNat) : cpu.setReg idx v = cpu.setX n v := by
  simp only [Cpu.setReg, Cpu.setX, same]

theorem sp_iff (same : idx.toNat = n.toNat) : idx = 31 ↔ n = 31 := by
  rw [← BitVec.toNat_inj, ← BitVec.toNat_inj, same]
  rfl

theorem getRegSp_eq (same : idx.toNat = n.toNat) : cpu.getRegSp idx = cpu.xsp n := by
  simp only [Cpu.getRegSp, Cpu.xsp, getReg_eq same, sp_iff same]

theorem setRegSp_eq (same : idx.toNat = n.toNat) : cpu.setRegSp idx v = cpu.setXsp n v := by
  simp only [Cpu.setRegSp, Cpu.setXsp, setReg_eq same, sp_iff same]

end Fields

/-! ## One instruction after the other -/

section Values

variable {cpu : Cpu} {pc : Addr} {rd : BitVec 5} {v : BitVec 64}

@[simp] theorem goTo_x : (cpu.goTo pc).x = cpu.x := rfl

@[simp] theorem goTo_xsp : (cpu.goTo pc).xsp = cpu.xsp := rfl

@[simp] theorem goTo_getRegSp : (cpu.goTo pc).getRegSp = cpu.getRegSp := rfl

theorem goTo_setX : (cpu.goTo pc).setX rd v = (cpu.setX rd v).goTo pc := by
  unfold Cpu.setX
  split <;> rfl

theorem goTo_setXsp : (cpu.goTo pc).setXsp rd v = (cpu.setXsp rd v).goTo pc := by
  unfold Cpu.setXsp
  split
  · rfl
  · exact goTo_setX

theorem setWidth_congr {w v u : Nat} {x : BitVec w} {y : BitVec v} (same : x.toNat = y.toNat) :
    x.setWidth u = y.setWidth u := by
  apply BitVec.eq_of_toNat_eq
  rw [BitVec.toNat_setWidth, BitVec.toNat_setWidth, same]

/-- The source counts the shift in a byte. -/
theorem shift_eq {x : BitVec 64} {s : BitVec 8} {k : Nat} (same : s.toNat = k) : x <<< s = x <<< k := by
  rw [BitVec.shiftLeft_eq', same]

theorem address_eq {base imm : BitVec 64} {rn : BitVec 5} {imm12 : BitVec 12} {scale : Nat}
    (base_eq : base = cpu.xsp rn) (imm_eq : imm.toNat = imm12.toNat) :
    base + imm * BitVec.ofNat 64 scale = cpu.address rn imm12 scale := by
  have number : imm = BitVec.ofNat 64 imm12.toNat := by
    rw [← imm_eq, BitVec.ofNat_toNat, BitVec.setWidth_eq]
  rw [Cpu.address, base_eq, number, BitVec.ofNat_mul]

/-- The offset of a branch, in bytes. -/
theorem toNat_branchOffset (imm26 : BitVec 26) : ((imm26 ++ 0#2).signExtend 64).toNat =
    imm26.toNat * 2 ^ 2 + if 2 ^ 25 ≤ imm26.toNat then 2 ^ 64 - 2 ^ 28 else 0 := by
  have small := imm26.isLt
  have wide : (imm26 ++ 0#2).toNat = imm26.toNat * 2 ^ 2 := toNat_append_eq imm26 0#2
  have sign : (imm26 ++ 0#2).msb = decide (2 ^ 25 ≤ imm26.toNat) := by
    rw [BitVec.msb_eq_decide, wide]
    exact decide_eq_decide.mpr (by omega)
  rw [BitVec.toNat_signExtend, sign, BitVec.toNat_setWidth, wide, Nat.mod_eq_of_lt (by omega)]
  simp only [decide_eq_true_eq]

theorem branchOffset_eq_zero (imm26 : BitVec 26) : (imm26 ++ 0#2).signExtend 64 = 0 ↔ imm26 = 0 := by
  have zero : ∀ w, (0 : BitVec w).toNat = 0 := fun w => BitVec.toNat_ofNat 0 w |>.trans (Nat.zero_mod _)
  rw [← BitVec.toNat_inj, ← BitVec.toNat_inj, toNat_branchOffset, zero, zero]
  constructor
  · intro sum
    have field := Nat.eq_zero_of_add_eq_zero_right sum
    omega
  · intro field
    rw [field, if_neg (by decide)]
    rfl

/-- The sign bit of the offset field, as the source tests it. -/
theorem sign_iff {raw : BitVec 32} (small : raw.toNat < 2 ^ 26) :
    raw &&& 0x2000000 ≠ 0 ↔ 2 ^ 25 ≤ raw.toNat := by
  have mask : (0x2000000 : BitVec 32) = BitVec.twoPow 32 25 := by decide
  have bit : raw.getLsbD 25 = decide (2 ^ 25 ≤ raw.toNat) := by
    rw [BitVec.getLsbD, Nat.testBit_eq_decide_div_mod_eq]
    exact decide_eq_decide.mpr (by omega)
  rw [mask, BitVec.and_twoPow, bit]
  by_cases neg : 2 ^ 25 ≤ raw.toNat
  · rw [decide_eq_true neg, if_pos rfl]
    exact iff_of_true (by decide) neg
  · rw [decide_eq_false neg, if_neg Bool.false_ne_true]
    exact iff_of_false (not_not.mpr rfl) neg

theorem toNat_signed {raw : BitVec 32} (small : raw.toNat < 2 ^ 26) :
    (raw ||| (-67108864)).toNat = raw.toNat + (2 ^ 32 - 2 ^ 26) := by
  have mask : (-67108864 : BitVec 32).toNat = 63 <<< 26 := by decide
  rw [BitVec.toNat_or, mask, or_shiftLeft_eq 63 small]
  rfl

theorem offset_eq {w : BitVec 32} {imm26 : BitVec 26} (field : w.toNat % 2 ^ 26 = imm26.toNat) :
    Cpu.offsetOf w <<< 2 = (imm26 ++ 0#2).signExtend 64 := by
  have small := imm26.isLt
  have raw : (w &&& 0x3FFFFFF).toNat = imm26.toNat := (toNat_lowField w (n := 26) (by decide)).trans field
  have raw_lt : (w &&& 0x3FFFFFF).toNat < 2 ^ 26 := by omega
  have sign := sign_iff raw_lt
  apply BitVec.eq_of_toNat_eq
  rw [toNat_branchOffset, BitVec.toNat_shiftLeft, Nat.shiftLeft_eq, Cpu.offsetOf]
  simp only [sign, raw]
  by_cases neg : 2 ^ 25 ≤ imm26.toNat
  · have word := toNat_signed raw_lt
    have msb : ((w &&& 0x3FFFFFF) ||| (-67108864)).msb = true := by
      rw [BitVec.msb_eq_decide, word]
      exact decide_eq_true (by omega)
    rw [if_pos neg, if_pos neg, BitVec.toNat_signExtend, msb, BitVec.toNat_setWidth, word, raw, if_pos rfl]
    clear sign field word msb raw_lt
    omega
  · rw [if_neg neg, if_neg neg, BitVec.toNat_setWidth, raw]
    clear sign field raw_lt
    omega

end Values

section Steps

variable (profile : Profile) {cpu : Cpu} {mmu : Mmu} {w : BitVec 32} {imm26 : BitVec 26} {hw : BitVec 2} {imm16 : BitVec 16} {sh : BitVec 1}
  {imm12 : BitVec 12} {rn rd rt : BitVec 5}

/-- A word that is not zero is in the RAM, at least in part. -/
theorem pc_near (there : mmu.load cpu.pc 4 = w.toNat) (ne : w ≠ 0) :
    ramDefaultBase.toNat - 3 ≤ cpu.pc.toNat ∧ cpu.pc.toNat < ramDefaultBase.toNat + ramSize := by
  by_contra away
  have base : ramDefaultBase.toNat = 0x40000000 := rfl
  have zero : ∀ k < 4, mmu.read8 (Mmu.at_ cpu.pc k) = 0 := by
    intro k lt
    have outside : Mmu.slot? (Mmu.at_ cpu.pc k) = none := by
      refine dif_neg fun inside => away ?_
      have sum : (Mmu.at_ cpu.pc k).toNat = (cpu.pc.toNat + k) % 2 ^ 64 := by
        rw [Mmu.at_, BitVec.toNat_add, BitVec.toNat_ofNat, Nat.mod_eq_of_lt (by omega : k < 2 ^ 64)]
      have bound := cpu.pc.isLt
      rw [sum, base] at inside
      rw [base]
      unfold ramSize at *
      omega
    rw [Mmu.read8, outside]
  have nothing : mmu.load cpu.pc 4 = 0 := by
    simp only [Mmu.load, zero 0 (by decide), zero 1 (by decide), zero 2 (by decide), zero 3 (by decide)]
    rfl
  exact ne (BitVec.eq_of_toNat_eq (there.symm.trans nothing))

/-- The word is fetched, and the program counter does not overflow. -/
theorem fetch (there : mmu.load cpu.pc 4 = w.toNat) (ne : w ≠ 0) :
    mmu.read32 profile cpu.pc = some w ∧ profile.addWord cpu.pc 4 = some (cpu.pc + 4) := by
  obtain ⟨lo, hi⟩ := pc_near there ne
  have base : ramDefaultBase.toNat = 0x40000000 := rfl
  have reached : profile.Reaches cpu.pc 5 := .inr (by unfold ramSize at hi; omega)
  have next : profile.addWord cpu.pc 4 = _ := Mmu.addWord_at (by decide)
  rw [Mmu.read32_eq, if_pos (reached.mono (by decide)), there, BitVec.ofNat_toNat, BitVec.setWidth_eq, next,
    if_pos reached]
  exact ⟨rfl, rfl⟩

theorem encode_ne {w : BitVec 32} {c k : Nat} (number : c * 2 ^ k ≤ w.toNat) (pos : 0 < c) : w ≠ 0 := by
  rintro rfl
  have big := Nat.mul_pos pos (Nat.two_pow_pos k)
  exact absurd number (Nat.not_le.mpr big)

/-- The offset of a branch is small, so that the target of a word in the RAM does not overflow. -/
theorem target_fits (there : mmu.load cpu.pc 4 = w.toNat) (ne : w ≠ 0) (imm26 : BitVec 26) :
    profile.addSigned cpu.pc ((imm26 ++ 0#2).signExtend 64) =
      some (cpu.pc + (imm26 ++ 0#2).signExtend 64) := by
  obtain ⟨lo, hi⟩ := pc_near there ne
  have base : ramDefaultBase.toNat = 0x40000000 := rfl
  unfold ramSize at hi
  have small := imm26.isLt
  have offset := toNat_branchOffset imm26
  have pc_int : cpu.pc.toInt = cpu.pc.toNat := by
    rw [BitVec.toInt_eq_toNat_of_lt (by omega)]
  have offset_int : -2 ^ 27 ≤ ((imm26 ++ 0#2).signExtend 64).toInt ∧
      ((imm26 ++ 0#2).signExtend 64).toInt < 2 ^ 27 := by
    rw [BitVec.toInt_eq_toNat_cond, offset]
    split_ifs <;> omega
  refine Profile.addSigned_eq ?_ ?_
  · rw [pc_int]
    omega
  · rw [pc_int]
    omega

theorem step_b (there : mmu.load cpu.pc 4 = (Instr.b imm26).encode.toNat) : cpu.step profile mmu =
    if imm26 = 0 then some ⟨cpu.goTo (cpu.pc + 4), mmu, false, none⟩
    else some ⟨((Instr.b imm26).exec cpu mmu).1, mmu, true, none⟩ := by
  have h1 := imm26.isLt
  have number : (Instr.b imm26).encode.toNat = 0x5 * 2 ^ 26 + imm26.toNat := toNat_append_eq _ _
  have ne : (Instr.b imm26).encode ≠ 0 := encode_ne (c := 0x5) (k := 26) (by omega) (by decide)
  obtain ⟨fetched, next⟩ := fetch profile there ne
  have target := target_fits profile there ne imm26
  have offset : Cpu.offsetOf (Instr.b imm26).encode <<< 2 = (imm26 ++ 0#2).signExtend 64 := offset_eq (by omega)
  have self : cpu.pc + (imm26 ++ 0#2).signExtend 64 = cpu.pc ↔ imm26 = 0 := by
    rw [← branchOffset_eq_zero imm26]
    exact BitVec.add_right_eq_self
  simp only [Cpu.step, fetched, next, Option.bind_eq_bind, Option.bind_some, test_zero, test_b, offset, target,
    self]
  rw [if_neg (by omega), if_pos (by omega)]
  rfl

theorem step_movz (there : mmu.load cpu.pc 4 = (Instr.movz hw imm16 rd).encode.toNat) :
    cpu.step profile mmu = some ⟨((Instr.movz hw imm16 rd).exec cpu mmu).1, mmu, true, none⟩ := by
  have h1 := hw.isLt
  have h2 := imm16.isLt
  have h3 := rd.isLt
  have number : (Instr.movz hw imm16 rd).encode.toNat =
      ((0x1A5 * 2 ^ 2 + hw.toNat) * 2 ^ 16 + imm16.toNat) * 2 ^ 5 + rd.toNat := by
    simp only [Instr.encode, toNat_append_eq]
    rfl
  have ne : (Instr.movz hw imm16 rd).encode ≠ 0 := encode_ne (c := 0x1A5) (k := 23) (by omega) (by decide)
  obtain ⟨fetched, next⟩ := fetch profile there ne
  generalize word : (Instr.movz hw imm16 rd).encode = w at *
  have rd_eq : (Cpu.rdOf w).toNat = rd.toNat := by
    rw [toNat_rdOf]
    omega
  have imm_eq : ((w >>> 5) &&& 0xFFFF).toNat = imm16.toNat := by
    refine (toNat_field w (k := 5) (n := 16) (by decide)).trans ?_
    omega
  have hw_eq : ((w >>> 21) &&& 0x3).toNat = hw.toNat := by
    refine (toNat_field w (k := 21) (n := 2) (by decide)).trans ?_
    omega
  have shift : (((w >>> 21) &&& 0x3).setWidth 8 * 16).toNat = 16 * hw.toNat := by
    rw [BitVec.toNat_mul, BitVec.toNat_setWidth, hw_eq]
    change hw.toNat % 2 ^ 8 * 16 % 2 ^ 8 = _
    omega
  simp only [Cpu.step, fetched, next, Option.bind_eq_bind, Option.bind_some, test_zero, test_b, test_movz]
  rw [if_neg (by omega), if_neg (by omega), if_pos (by omega), setReg_eq rd_eq, setWidth_congr imm_eq,
    shift_eq shift, goTo_setX]
  rfl

/-- The fields of a word with a 12-bit immediate and two registers. -/
theorem immediate_fields {w : BitVec 32} {c : BitVec 10} (word : w = c ++ imm12 ++ rn ++ rt) :
    w.toNat / 2 ^ 22 = c.toNat ∧ (Cpu.imm12Of w).toNat = imm12.toNat ∧
    (Cpu.rnOf w).toNat = rn.toNat ∧ (Cpu.rdOf w).toNat = rt.toNat := by
  have h1 := imm12.isLt
  have h2 := rn.isLt
  have h3 := rt.isLt
  have number : w.toNat = ((c.toNat * 2 ^ 12 + imm12.toNat) * 2 ^ 5 + rn.toNat) * 2 ^ 5 + rt.toNat := by
    rw [word]
    simp only [toNat_append_eq]
  rw [toNat_imm12Of, toNat_rnOf, toNat_rdOf, number]
  omega

theorem step_addImm (there : mmu.load cpu.pc 4 = (Instr.addImm sh imm12 rn rd).encode.toNat) :
    cpu.step profile mmu = some ⟨((Instr.addImm sh imm12 rn rd).exec cpu mmu).1, mmu, true, none⟩ := by
  generalize word : (Instr.addImm sh imm12 rn rd).encode = w at *
  obtain ⟨op, imm_eq, rn_eq, rd_eq⟩ := immediate_fields (c := 0b100100010#9 ++ sh) word.symm
  have h1 := sh.isLt
  have code : (0b100100010#9 ++ sh).toNat = 0x122 * 2 ^ 1 + sh.toNat := toNat_append_eq _ _
  have ne : w ≠ 0 := encode_ne (c := 0x91) (k := 24) (by omega) (by decide)
  obtain ⟨fetched, next⟩ := fetch profile there ne
  have imm_val : Cpu.imm12Of w = imm12.setWidth 64 := by
    have small := imm12.isLt
    apply BitVec.eq_of_toNat_eq
    rw [imm_eq, BitVec.toNat_setWidth, Nat.mod_eq_of_lt (by omega)]
  have sh_eq : ((w >>> 22) &&& 1).toNat = sh.toNat := by
    refine (toNat_field w (k := 22) (n := 1) (by decide)).trans ?_
    omega
  have shift : (((w >>> 22) &&& 1).setWidth 8 * 12).toNat = 12 * sh.toNat := by
    rw [BitVec.toNat_mul, BitVec.toNat_setWidth, sh_eq]
    change sh.toNat % 2 ^ 8 * 12 % 2 ^ 8 = _
    omega
  simp only [Cpu.step, fetched, next, Option.bind_eq_bind, Option.bind_some, test_zero, test_b, test_movz,
    test_addImm]
  rw [if_neg (by omega), if_neg (by omega), if_neg (by omega), if_pos (by omega), setRegSp_eq rd_eq,
    getRegSp_eq rn_eq, imm_val, shift_eq shift, goTo_setXsp]
  rfl

/-! A store or a load. The transfer register is read with the stack pointer at 31. -/

theorem step_str (there : mmu.load cpu.pc 4 = (Instr.str imm12 rn rt).encode.toNat) : cpu.step profile mmu =
    if profile.Reaches (cpu.address rn imm12 8) 8 then
      some ⟨cpu.goTo (cpu.pc + 4), mmu.store (cpu.address rn imm12 8) (cpu.xsp rt).toNat 8, true, none⟩
    else none := by
  generalize word : (Instr.str imm12 rn rt).encode = w at *
  obtain ⟨op, imm_eq, rn_eq, rt_eq⟩ := immediate_fields word.symm
  change _ = 0x3E4 at op
  have ne : w ≠ 0 := encode_ne (c := 0x3E4) (k := 22) (by omega) (by decide)
  obtain ⟨fetched, next⟩ := fetch profile there ne
  have address : (cpu.goTo (cpu.pc + 4)).getRegSp (Cpu.rnOf w) +
      Cpu.imm12Of w * 8 = cpu.address rn imm12 8 := address_eq (getRegSp_eq rn_eq) imm_eq
  simp only [Cpu.step, fetched, next, Option.bind_eq_bind, Option.bind_some, test_zero, test_b, test_movz,
    test_addImm, test_str]
  rw [if_neg (by omega), if_neg (by omega), if_neg (by omega), if_neg (by omega), if_pos op, address,
    getRegSp_eq rt_eq, Mmu.write64_eq]
  split_ifs <;> rfl

/-- A store of a byte takes the zero register. -/
theorem step_strb (there : mmu.load cpu.pc 4 = (Instr.strb imm12 rn rt).encode.toNat) : cpu.step profile mmu =
    some ⟨cpu.goTo (cpu.pc + 4), mmu.store (cpu.address rn imm12 1) (cpu.x rt).toNat 1, true, none⟩ := by
  generalize word : (Instr.strb imm12 rn rt).encode = w at *
  obtain ⟨op, imm_eq, rn_eq, rt_eq⟩ := immediate_fields word.symm
  change _ = 0xE4 at op
  have ne : w ≠ 0 := encode_ne (c := 0xE4) (k := 22) (by omega) (by decide)
  obtain ⟨fetched, next⟩ := fetch profile there ne
  have address : (cpu.goTo (cpu.pc + 4)).getRegSp (Cpu.rnOf w) +
      Cpu.imm12Of w = cpu.address rn imm12 1 := by
    rw [← address_eq (getRegSp_eq rn_eq) imm_eq, goTo_getRegSp]
    exact congrArg _ (BitVec.mul_one _).symm
  have byte : ((cpu.x rt) &&& 0xFF).setWidth 8 = BitVec.ofNat 8 ((cpu.x rt).toNat / 256 ^ 0) :=
    Mmu.byte_eq (cpu.x rt) (k := 0) (by decide)
  simp only [Cpu.step, fetched, next, Option.bind_eq_bind, Option.bind_some, test_zero, test_b, test_movz,
    test_addImm, test_str, test_strb]
  rw [if_neg (by omega), if_neg (by omega), if_neg (by omega), if_neg (by omega), if_neg (by omega), if_pos op,
    address, getReg_eq rt_eq, goTo_x, byte]
  simp only [Mmu.store, Mmu.at_zero]
  rfl

theorem step_ldr (there : mmu.load cpu.pc 4 = (Instr.ldr imm12 rn rt).encode.toNat) : cpu.step profile mmu =
    if profile.Reaches (cpu.address rn imm12 8) 8 then
      some ⟨(cpu.setXsp rt (BitVec.ofNat 64 (mmu.load (cpu.address rn imm12 8) 8))).goTo (cpu.pc + 4), mmu, true,
        none⟩
    else none := by
  generalize word : (Instr.ldr imm12 rn rt).encode = w at *
  obtain ⟨op, imm_eq, rn_eq, rt_eq⟩ := immediate_fields word.symm
  change _ = 0x3E5 at op
  have ne : w ≠ 0 := encode_ne (c := 0x3E5) (k := 22) (by omega) (by decide)
  obtain ⟨fetched, next⟩ := fetch profile there ne
  have address : (cpu.goTo (cpu.pc + 4)).getRegSp (Cpu.rnOf w) +
      Cpu.imm12Of w * 8 = cpu.address rn imm12 8 := address_eq (getRegSp_eq rn_eq) imm_eq
  simp only [Cpu.step, fetched, next, Option.bind_eq_bind, Option.bind_some, test_zero, test_b, test_movz,
    test_addImm, test_str, test_strb, test_ldr]
  rw [if_neg (by omega), if_neg (by omega), if_neg (by omega), if_neg (by omega), if_neg (by omega),
    if_neg (by omega), if_pos op, address, Mmu.read64_eq]
  split_ifs
  · simp only [Option.bind_some, setRegSp_eq rt_eq, goTo_setXsp]
    rfl
  · rfl

theorem step_ldrb (there : mmu.load cpu.pc 4 = (Instr.ldrb imm12 rn rt).encode.toNat) : cpu.step profile mmu =
    some ⟨(cpu.setXsp rt (BitVec.ofNat 64 (mmu.load (cpu.address rn imm12 1) 1))).goTo (cpu.pc + 4), mmu, true,
      none⟩ := by
  generalize word : (Instr.ldrb imm12 rn rt).encode = w at *
  obtain ⟨op, imm_eq, rn_eq, rt_eq⟩ := immediate_fields word.symm
  change _ = 0xE5 at op
  have ne : w ≠ 0 := encode_ne (c := 0xE5) (k := 22) (by omega) (by decide)
  obtain ⟨fetched, next⟩ := fetch profile there ne
  have address : (cpu.goTo (cpu.pc + 4)).getRegSp (Cpu.rnOf w) +
      Cpu.imm12Of w = cpu.address rn imm12 1 := by
    rw [← address_eq (getRegSp_eq rn_eq) imm_eq, goTo_getRegSp]
    exact congrArg _ (BitVec.mul_one _).symm
  have loaded : (mmu.read8 (cpu.address rn imm12 1)).setWidth 64 =
      BitVec.ofNat 64 (mmu.load (cpu.address rn imm12 1) 1) := by
    simp only [Mmu.load, Mmu.at_zero, Nat.zero_add, pow_zero, Nat.mul_one]
    exact BitVec.ofNat_toNat _ _ |>.symm
  simp only [Cpu.step, fetched, next, Option.bind_eq_bind, Option.bind_some, test_zero, test_b, test_movz,
    test_addImm, test_str, test_strb, test_ldr, test_ldrb]
  rw [if_neg (by omega), if_neg (by omega), if_neg (by omega), if_neg (by omega), if_neg (by omega),
    if_neg (by omega), if_neg (by omega), if_pos op, address, loaded, setRegSp_eq rt_eq, goTo_setXsp]
  rfl

/-- No test takes a RET: the mask of its own clears bits of the pattern. It is reported and skipped. -/
theorem step_ret (there : mmu.load cpu.pc 4 = (Instr.ret rn).encode.toNat) : cpu.step profile mmu =
    some ⟨cpu.goTo (cpu.pc + 4), mmu, true, some ((Instr.ret rn).encode, cpu.pc)⟩ := by
  have h1 := rn.isLt
  have number : (Instr.ret rn).encode.toNat = (0b1101011001011111000000 * 2 ^ 5 + rn.toNat) * 2 ^ 5 + 0 := by
    simp only [Instr.encode, toNat_append_eq]
    rfl
  have ne : (Instr.ret rn).encode ≠ 0 :=
    encode_ne (c := 0b1101011001011111000000) (k := 10) (by omega) (by decide)
  obtain ⟨fetched, next⟩ := fetch profile there ne
  simp only [Cpu.step, fetched, next, Option.bind_eq_bind, Option.bind_some, test_zero, test_b, test_movz,
    test_addImm, test_str, test_strb, test_ldr, test_ldrb]
  rw [if_neg (by omega), if_neg (by omega), if_neg (by omega), if_neg (by omega), if_neg (by omega),
    if_neg (by omega), if_neg (by omega), if_neg (by omega), if_neg (test_ret _)]
  rfl

end Steps

/-! ## Where the runner does what it should -/

section Conforms

variable {profile : Profile} {cpu : Cpu} {mmu : Mmu} {i : Instr} {rn rt : BitVec 5} {v : BitVec 64} {imm12 : BitVec 12} {n : Nat}

/-- An instruction that the runner goes on after. -/
theorem conforms_goesOn {after : Stepped} (step : cpu.step profile mmu = some after) (on : after.goesOn = true)
    (other : ¬ i.IsSelfBranch) : Conforms profile cpu mmu i ↔ (after.cpu, after.mmu) = i.exec cpu mmu := by
  constructor
  · rintro ⟨after', step', effect, -⟩
    obtain rfl := Option.some.inj (step.symm.trans step')
    exact effect
  · intro effect
    refine ⟨after, step, effect, ?_⟩
    rw [on]
    exact iff_of_false (by decide) other

/-- An instruction that the runner goes on after, unless it panics. -/
theorem conforms_reaches {after : Stepped} {a : Addr}
    (step : cpu.step profile mmu = if profile.Reaches a n then some after else none) (on : after.goesOn = true)
    (other : ¬ i.IsSelfBranch) :
    Conforms profile cpu mmu i ↔ profile.Reaches a n ∧ (after.cpu, after.mmu) = i.exec cpu mmu := by
  by_cases reached : profile.Reaches a n
  · rw [if_pos reached] at step
    rw [conforms_goesOn step on other]
    exact (and_iff_right reached).symm
  · rw [if_neg reached] at step
    refine iff_of_false ?_ fun both => reached both.1
    rintro ⟨after', step', -⟩
    rw [step] at step'
    cases step'

theorem goTo_inj {p q : Addr} : cpu.goTo p = cpu.goTo q ↔ p = q :=
  ⟨congrArg Cpu.pc, congrArg cpu.goTo⟩

theorem xsp_eq_x (h : rt ≠ 31) : cpu.xsp rt = cpu.x rt := if_neg h

/-- Two stores of the transfer register. -/
theorem store_conforms {a : Addr} (small : n ≤ 2 ^ 64) :
    mmu.store a (cpu.xsp rt).toNat n = mmu.store a (cpu.x rt).toNat n ↔
    (rt = 31 → ∀ k < n, Mmu.Backed (Mmu.at_ a k) → BitVec.ofNat 8 (cpu.sp.toNat / 256 ^ k) = 0) := by
  by_cases h : rt = 31
  · subst h
    have zero : ∀ k, BitVec.ofNat 8 ((cpu.x 31).toNat / 256 ^ k) = 0 := by
      intro k
      change BitVec.ofNat 8 (0 / 256 ^ k) = 0
      rw [Nat.zero_div]
      rfl
    rw [Mmu.store_eq_iff small]
    simp only [zero, forall_const]
    rfl
  · rw [xsp_eq_x h]
    exact iff_of_true rfl fun is31 => absurd is31 h

/-- Two loads into the transfer register. -/
theorem load_conforms {pc : Addr} : (cpu.setXsp rt v).goTo pc = (cpu.setX rt v).goTo pc ↔
    (rt = 31 → v = cpu.sp) := by
  by_cases h : rt = 31
  · subst h
    constructor
    · exact fun same _ => congrArg Cpu.sp same
    · intro same
      cases same rfl
      rfl
  · rw [Cpu.setXsp, if_neg h]
    exact iff_of_true rfl fun is31 => absurd is31 h

theorem loaded_eq_iff {a : Addr} (small : n ≤ 8) :
    BitVec.ofNat 64 (mmu.load a n) = v ↔ mmu.load a n = v.toNat := by
  have lt := mmu.load_lt a n
  have bound : 256 ^ n ≤ 256 ^ 8 := Nat.pow_le_pow_right (by decide) small
  rw [← BitVec.toNat_inj, BitVec.toNat_ofNat, Nat.mod_eq_of_lt (by omega)]

/-- For every word of these encodings the runner does what the architecture says exactly where it is
`Handled`. -/
theorem conforms_iff (profile : Profile) (cpu : Cpu) (mmu : Mmu) (i : Instr)
    (there : mmu.load cpu.pc 4 = i.encode.toNat) :
    Conforms profile cpu mmu i ↔ i.Handled profile cpu mmu := by
  cases i with
  | b imm26 =>
    have step := step_b profile there
    by_cases self : imm26 = 0
    · refine iff_of_false (fun conforms => ?_) (not_not.mpr self)
      rw [if_pos self] at step
      obtain ⟨after, step', effect, -⟩ := conforms
      obtain rfl := Option.some.inj (step.symm.trans step')
      have moved := congrArg (fun r => r.1.pc) effect
      rw [self] at moved
      have four : (4 : BitVec 64) = (0#26 ++ 0#2).signExtend 64 := (BitVec.add_right_inj cpu.pc).mp moved
      exact absurd four (by decide)
    · rw [if_neg self] at step
      refine iff_of_true ?_ self
      refine (conforms_goesOn step rfl fun same => ?_).mpr rfl
      exact self (Instr.b.inj same)
  | movz hw imm16 rd =>
    have conforms := conforms_goesOn (i := .movz hw imm16 rd) (step_movz profile there) rfl nofun
    exact iff_of_true (conforms.mpr rfl) trivial
  | addImm sh imm12 rn rd =>
    have conforms := conforms_goesOn (i := .addImm sh imm12 rn rd) (step_addImm profile there) rfl nofun
    exact iff_of_true (conforms.mpr rfl) trivial
  | str imm12 rn rt =>
    have conforms := conforms_reaches (i := .str imm12 rn rt) (step_str profile there) rfl nofun
    rw [conforms, Instr.exec, Prod.mk.injEq]
    exact and_congr_right fun _ => (and_iff_right rfl).trans (store_conforms (by decide))
  | strb imm12 rn rt =>
    have conforms := conforms_goesOn (i := .strb imm12 rn rt) (step_strb profile there) rfl nofun
    exact iff_of_true (conforms.mpr rfl) trivial
  | ldr imm12 rn rt =>
    have conforms := conforms_reaches (i := .ldr imm12 rn rt) (step_ldr profile there) rfl nofun
    rw [conforms, Instr.exec, Prod.mk.injEq, load_conforms, loaded_eq_iff (by decide)]
    exact and_congr_right fun _ => and_iff_left rfl
  | ldrb imm12 rn rt =>
    have conforms := conforms_goesOn (i := .ldrb imm12 rn rt) (step_ldrb profile there) rfl nofun
    rw [conforms, Instr.exec, Prod.mk.injEq, load_conforms, loaded_eq_iff (by decide)]
    exact and_iff_left rfl
  | ret rn =>
    have conforms := conforms_goesOn (i := .ret rn) (step_ret profile there) rfl nofun
    rw [conforms, Instr.exec, Prod.mk.injEq, goTo_inj]
    exact (and_iff_left rfl).trans eq_comm

end Conforms

/-- The memory with one instruction at the start of the RAM. -/
def Instr.alone (i : Instr) : Mmu := Mmu.new.store ramDefaultBase i.encode.toNat 4

/-- X1 is stored 8 bytes above the stack pointer, which is at the base of the RAM. -/
theorem conforms_iff_str :
    Conforms .dev (Cpu.new ramDefaultBase ramDefaultBase) (Instr.str 1 31 1).alone (.str 1 31 1) :=
  (conforms_iff .dev _ _ _ (by decide +kernel)).mpr ⟨.inr (by decide), fun eq => absurd eq (by decide)⟩

/-- A RET goes to the next word. -/
theorem ret_not_conforms : ¬ ∀ (profile : Profile) (cpu : Cpu) (mmu : Mmu) (i : Instr),
    mmu.load cpu.pc 4 = i.encode.toNat → Conforms profile cpu mmu i := by
  intro claim
  have there : (Instr.ret 30).alone.load (Cpu.new ramDefaultBase 0).pc 4 = (Instr.ret 30).encode.toNat := by
    decide +kernel
  obtain ⟨after, step, effect, -⟩ := claim .release _ _ _ there
  rw [step_ret .release there] at step
  obtain rfl := Option.some.inj step
  have next : ramDefaultBase + 4 = 0 := congrArg (fun r => r.1.pc) effect
  exact absurd next (by decide)

end CapsuleOS.Runner
