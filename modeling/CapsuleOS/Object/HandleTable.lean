import CapsuleOS.Ipc.Endpoint

/-!
# Handle tables

The routines of `HandleTable`. Values move in and out of the table by Rust moves, so an object that
is not stored is dropped: the error returns say which objects that happens to.
-/
namespace CapsuleOS

open Lib

namespace Rights

def read : Nat := 1
def write : Nat := 2
def execute : Nat := 4
def map : Nat := 8

end Rights

namespace Kernel

/-- Drop of a kernel object. A boxed channel is closed and its heap block released. -/
def dropObject : KernelObject → KernelM Unit
  | .vmo v => onMm v.drop
  | .vmar r => onMm r.drop
  | .channel p => do
    closeChannel p
    Prog.modify fun k => k.setChan p none
  | .port _ => pure ()
  | .process _ => pure ()
  | .thread _ => pure ()

def checkRights (have_ required : Nat) : Bool := required == 0 || have_ &&& required == required

def nextHandleValue : KernelM Nat := fun k =>
  .ok k.handleValueCounter { k with handleValueCounter := (k.handleValueCounter + 1) % 2 ^ 32 }

/-- Store an entry in the first free cell, or drop its object. -/
def putSlot (tab : Nat) (s : HandleSlot) : KernelM Unit := fun k =>
  match (k.tables tab).insert? s with
  | some t => .ok () (k.setTable tab t)
  | none => (do dropObject s.object; Prog.throw .noMemory : KernelM Unit) k

/-- The handle value is consumed even when the table is full. -/
def addHandle (tab : Nat) (object : KernelObject) (rights : Nat) : KernelM Nat := do
  let hv ← nextHandleValue
  putSlot tab { value := hv, rights, object }
  return hv

def addRawHandle (tab rawVal : Nat) (object : KernelObject) (rights : Nat) : KernelM Unit :=
  putSlot tab { value := rawVal, rights, object }

/-- Lookup with a rights check, as `with` does it before calling its closure. -/
def findSlot (tab hv required : Nat) : KernelM HandleSlot := fun k =>
  match (k.tables tab).find? (·.value == hv) with
  | none => .err .badHandle k
  | some s => if checkRights s.rights required then .ok s k else .err .accessDenied k

/-- `with_channel(|c| c as *mut Channel)`. -/
def withChannel (tab hv required : Nat) : KernelM Nat := do
  let s ← findSlot tab hv required
  match s.object with
  | .channel p => return p
  | _ => Prog.throw .wrongType

/-- `KernelObject::duplicate`. -/
def duplicateObject : KernelObject → Except Status KernelObject
  | .vmo v => .ok (.vmo v.clone)
  | _ => .error .notAllowed

def duplicateHandle (tab hv required : Nat) : KernelM Nat := do
  let s ← findSlot tab hv required
  match duplicateObject s.object with
  | .ok o => addHandle tab o s.rights
  | .error e => Prog.throw e

def removeWithRights (tab hv : Nat) : KernelM (KernelObject × Nat) := fun k =>
  match (k.tables tab).take? (·.value == hv) with
  | none => .err .badHandle k
  | some (s, t) => .ok (s.object, s.rights) (k.setTable tab t)

/-- `SYSCALL_CLOSE`: the removed object is dropped. -/
def sysClose (tab hv : Nat) : KernelM Unit := do
  let (o, _) ← removeWithRights tab hv
  dropObject o

end Kernel

end CapsuleOS
