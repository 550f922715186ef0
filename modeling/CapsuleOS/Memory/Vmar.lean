import CapsuleOS.Lib.Loop
import CapsuleOS.Memory.Phys

/-!
# Virtual memory address regions

The logical side of a mapping: a region records which ranges have been handed out. Page tables are
updated elsewhere.
-/
namespace CapsuleOS

open Lib

structure VmarFlags where
  bits : Nat
  deriving DecidableEq

namespace VmarFlags

def read : VmarFlags := ⟨1⟩
def write : VmarFlags := ⟨2⟩
def execute : VmarFlags := ⟨4⟩
def user : VmarFlags := ⟨8⟩

end VmarFlags

def maxChildren : Nat := 32

def maxMappings : Nat := 32

structure Mapping where
  vmoId : Nat
  vmoOffset : Nat
  virtAddr : Nat
  size : Nat
  flags : VmarFlags
  installed : Bool
  deriving DecidableEq

structure SubRegion where
  base : Nat
  size : Nat
  metaPa : Option Nat
  deriving DecidableEq

structure Vmar where
  base : Nat
  size : Nat
  metaPage : Nat
  children : List SubRegion
  mappings : List Mapping
  deriving DecidableEq

namespace Vmar

def create (base size : Nat) : MmM Vmar := do
  if base % pageSize ≠ 0 ∨ size = 0 then Prog.throw .invalidArgs
  else
    let size := wsub (wadd size pageSize) 1 / pageSize * pageSize
    let metaPa ← allocVmarMeta
    return { base, size, metaPage := metaPa, children := [], mappings := [] }

/-! ### Subregions -/

/-- The next multiple of the page size. -/
def roundUp (a : Nat) : Nat := wsub (wadd a pageSize) 1 / pageSize * pageSize

/-- The test for a range at `candidate` against a recorded one. -/
def conflicts (candidate size base len : Nat) : Bool :=
  decide (candidate < wadd base len) && decide (wadd candidate size > base)

/-- One round of the search. At the first conflict, with the children before the mappings, the search
starts again behind the range it met. -/
def tryCandidate (r : Vmar) (size candidate : Nat) : Round Nat (Except Status Nat) :=
  if wadd candidate size > wadd r.base r.size then .leave (.error .noMemory)
  else
    match r.children.find? fun c => c.metaPa.isSome && conflicts candidate size c.base c.size with
    | some c => .again (roundUp (wadd c.base c.size))
    | none =>
      match r.mappings.find? fun m => conflicts candidate size m.virtAddr m.size with
      | some m => .again (roundUp (wadd m.virtAddr m.size))
      | none => .leave (.ok candidate)

/-- The new subregion and the region that has recorded it. A search that takes more than `fuel` rounds
counts as a fault. -/
def allocateSubregion (fuel : Nat) (r : Vmar) (size : Nat) : MmM (Vmar × Vmar) := do
  if size = 0 then Prog.throw .invalidArgs
  else
    let size := roundUp size
    if r.children.length ≥ maxChildren then Prog.throw .noMemory
    else
      match Round.loop (r.tryCandidate size) fuel r.base with
      | none => Prog.fault
      | some (.error e) => Prog.throw e
      | some (.ok candidate) =>
        let child ← create candidate size
        return (child, { r with children :=
          r.children ++ [{ base := candidate, size, metaPa := some child.metaPage }] })

/-! ### Mappings -/

def reserveMapping (r : Vmar) (vmoId vmoOffset virtAddr size : Nat) (flags : VmarFlags) :
    Except Status Vmar :=
  if size = 0 ∨ virtAddr % pageSize ≠ 0 ∨ vmoOffset % pageSize ≠ 0 then .error .invalidArgs
  else if virtAddr < r.base ∨ wadd virtAddr size > wadd r.base r.size then .error .invalidArgs
  else if r.mappings.length ≥ maxMappings then .error .noMemory
  else .ok { r with mappings :=
    r.mappings ++ [{ vmoId, vmoOffset, virtAddr, size, flags, installed := true }] }

def drop (r : Vmar) : MmM Unit := dropPhysPage r.metaPage

end Vmar

end CapsuleOS
