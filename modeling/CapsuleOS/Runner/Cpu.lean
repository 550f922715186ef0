import CapsuleOS.Runner.Mmu

/-!
# The processor of the runner

Thirty-one registers, the stack pointer and the program counter. `step` fetches a word and tries one mask
after the other on it; a word that fits none is reported and skipped. No result is a panic.
-/
namespace CapsuleOS.Runner

open Lib

structure Cpu where
  regs : Fin 31 → BitVec 64
  sp : BitVec 64
  pc : Addr

/-- What a step leaves behind: whether the runner goes on, and the word and its address if it was reported as
unhandled. -/
structure Stepped where
  cpu : Cpu
  mmu : Mmu
  goesOn : Bool
  warning : Option (BitVec 32 × Addr)

namespace Cpu

def new (entryPoint stackPointer : Addr) : Cpu := ⟨fun _ => 0, stackPointer, entryPoint⟩

/-- Index 31 reads as zero. -/
def getReg (cpu : Cpu) (idx : BitVec 8) : BitVec 64 :=
  if h : idx.toNat < 31 then cpu.regs ⟨idx.toNat, h⟩ else 0

/-- Writes to index 31 are ignored. -/
def setReg (cpu : Cpu) (idx : BitVec 8) (val : BitVec 64) : Cpu :=
  if h : idx.toNat < 31 then { cpu with regs := Function.update cpu.regs ⟨idx.toNat, h⟩ val } else cpu

def goTo (cpu : Cpu) (pc : Addr) : Cpu := { cpu with pc }

/-- An index of the source where 31 is the stack pointer. -/
def getRegSp (cpu : Cpu) (idx : BitVec 8) : BitVec 64 := if idx = 31 then cpu.sp else cpu.getReg idx

def setRegSp (cpu : Cpu) (idx : BitVec 8) (val : BitVec 64) : Cpu :=
  if idx = 31 then { cpu with sp := val } else cpu.setReg idx val

/-! ## Fields of a word -/

def rdOf (instr : BitVec 32) : BitVec 8 := (instr &&& 0x1F).setWidth 8

def rnOf (instr : BitVec 32) : BitVec 8 := ((instr >>> 5) &&& 0x1F).setWidth 8

def imm12Of (instr : BitVec 32) : BitVec 64 := ((instr >>> 10) &&& 0xFFF).setWidth 64

/-- The 26-bit offset, sign extended. -/
def offsetOf (instr : BitVec 32) : BitVec 64 :=
  let offsetRaw := instr &&& 0x3FFFFFF
  if offsetRaw &&& 0x2000000 ≠ 0 then (offsetRaw ||| (-67108864)).signExtend 64 else offsetRaw.setWidth 64

/-! ## A step -/

def step (profile : Profile) (cpu : Cpu) (mmu : Mmu) : Option Stepped := do
  let instr ← mmu.read32 profile cpu.pc
  if instr = 0 then return ⟨cpu, mmu, false, none⟩
  else
    let currPc := cpu.pc
    let next ← profile.addWord cpu.pc 4
    let cpu := cpu.goTo next
    if instr >>> 26 = 0x5 then
      let branchTarget ← profile.addSigned currPc (offsetOf instr <<< 2)
      if branchTarget = currPc then return ⟨cpu, mmu, false, none⟩
      else return ⟨cpu.goTo branchTarget, mmu, true, none⟩
    -- MOVZ
    else if instr &&& 0xFF800000 = 0xD2800000 then
      let imm := ((instr >>> 5) &&& 0xFFFF).setWidth 64
      let hw : BitVec 8 := ((instr >>> 21) &&& 0x3).setWidth 8
      return ⟨cpu.setReg (rdOf instr) (imm <<< (hw * 16)), mmu, true, none⟩
    -- ADD (immediate)
    else if instr &&& 0xFF000000 = 0x91000000 then
      let sh : BitVec 8 := ((instr >>> 22) &&& 1).setWidth 8
      let addedVal := imm12Of instr <<< (sh * 12)
      return ⟨cpu.setRegSp (rdOf instr) (cpu.getRegSp (rnOf instr) + addedVal), mmu, true, none⟩
    -- STR, 64 bits: 31 stands for the stack pointer in both places
    else if instr &&& 0xFFC00000 = 0xF9000000 then
      let baseAddr := cpu.getRegSp (rnOf instr)
      let valRt := cpu.getRegSp (rdOf instr)
      let mmu ← mmu.write64 profile (baseAddr + imm12Of instr * 8) valRt
      return ⟨cpu, mmu, true, none⟩
    -- STR, 8 bits
    else if instr &&& 0xFFC00000 = 0x39000000 then
      let baseAddr := cpu.getRegSp (rnOf instr)
      let valRt := (cpu.getReg (rdOf instr) &&& 0xFF).setWidth 8
      return ⟨cpu, mmu.write8 (baseAddr + imm12Of instr) valRt, true, none⟩
    -- LDR, 64 bits
    else if instr &&& 0xFFC00000 = 0xF9400000 then
      let baseAddr := cpu.getRegSp (rnOf instr)
      let loaded ← mmu.read64 profile (baseAddr + imm12Of instr * 8)
      return ⟨cpu.setRegSp (rdOf instr) loaded, mmu, true, none⟩
    -- LDR, 8 bits
    else if instr &&& 0xFFC00000 = 0x39400000 then
      let baseAddr := cpu.getRegSp (rnOf instr)
      let loaded := (mmu.read8 (baseAddr + imm12Of instr)).setWidth 64
      return ⟨cpu.setRegSp (rdOf instr) loaded, mmu, true, none⟩
    -- RET: the mask clears bits that the pattern has
    else if instr &&& 0xFFFFFC1F = 0xD65F03C0 then
      return ⟨cpu.goTo (cpu.getReg (rnOf instr)), mmu, true, none⟩
    else return ⟨cpu, mmu, true, some (instr, currPc)⟩

end Cpu

end CapsuleOS.Runner
