import CapsuleOS.Arch.PageTable
import CapsuleOS.Memory.Vmar
import CapsuleOS.Memory.Vmo
import CapsuleOS.Task.Process

/-!
# Launching and reaping, with memory

The memory side of a process is its root region, the frame of its handle table and its page tables;
`Sys` adds it to the process table and the memory manager. A launch fills all of it in; reaping drops
the process and with it what has a destructor. Values of type `Vmo` that a routine holds in a local
variable are dropped when the routine ends, also when it returns early (`withVmo`).

The image of a program appears as the parser hands it out. The entry point, the registers of the new
thread and its address space id are left out, and so is everything that only logs.
-/
namespace CapsuleOS

open Lib

/-! ## User memory -/

/-- Copy page by page; every round moves at least one byte, so the length is fuel enough. -/
def copyToUserLoop (l0Pa : Nat) (src : List UInt8) (dest : Nat) : Nat → Nat → MmM Unit
  | 0, _ => pure ()
  | fuel + 1, copied => do
    if copied < src.length then
      let s ← Prog.get
      let va := wadd dest copied
      match translateUserVa s.mem l0Pa va with
      | none => Prog.throw .invalidArgs
      | some pa =>
        let chunk := min (src.length - copied) (4096 - va % 4096)
        Prog.modify fun s => s.setMem (s.mem.store pa ((src.drop copied).take chunk))
        copyToUserLoop l0Pa src dest fuel (copied + chunk)
    else pure ()

def safeCopyToUser (l0Pa : Nat) (src : List UInt8) (dest : Nat) : MmM Unit :=
  if l0Pa = 0 then Prog.throw .invalidArgs else copyToUserLoop l0Pa src dest src.length 0

/-! ## State -/

def Vmar.newDummy : Vmar := ⟨0, 0, 0, [], []⟩

/-- The memory of a process. `handleTable` is the frame of the handle slots. -/
structure Space where
  vmar : Vmar
  handleTable : Nat
  tree : PageTableTree

def Space.newDummy : Space := ⟨Vmar.newDummy, 0, .empty⟩

/-- `space` gives the memory of the process with a given id. -/
structure Sys where
  os : Os
  mm : Mm
  space : Nat → Space

abbrev SysM := Prog Sys Status

namespace Sys

def onOs {α : Type} (m : OsM α) : SysM α := Prog.zoom Sys.os (fun os s => { s with os }) m

def onMm {α : Type} (m : MmM α) : SysM α := Prog.zoom Sys.mm (fun mm s => { s with mm }) m

def setSpace (pid : Nat) (space : Space) (s : Sys) : Sys :=
  { s with space := Function.update s.space pid space }

def treeOf (s : Sys) (pid : Nat) : TreeState := ⟨(s.space pid).tree, s.mm⟩

def putTree (pid : Nat) (t : TreeState) (s : Sys) : Sys :=
  { s.setSpace pid { s.space pid with tree := t.tree } with mm := t.mm }

def onTree {α : Type} (pid : Nat) (m : TreeM α) : SysM α :=
  Prog.zoom (fun s => s.treeOf pid) (putTree pid) m

/-- `register_page_table_for_l0`: the first process with that root. -/
def registerForL0 (l0Pa pa : Nat) (s : Sys) : Sys :=
  match s.os.processes.find? fun p =>
      (s.space p.id).tree.hasRoot && (s.space p.id).tree.l0Pa == l0Pa with
  | some p => putTree p.id ((s.treeOf p.id).track pa) s
  | none => s

/-- `current_process_register_page_table`. -/
def registerCurrent (pa : Nat) (s : Sys) : Sys :=
  match s.os.sched.getCurrentThread with
  | none => s
  | some t =>
    match s.os.findProcess t.processId with
    | some p => putTree p.id ((s.treeOf p.id).track pa) s
    | none => s

/-- The walk of `mmu.rs`: the table that replaces a block goes to the running process, and its
descriptor is written as it is. -/
def walker (l0Pa : Nat) : Walker Sys where
  view := Sys.mm
  put mm s := { s with mm }
  track := registerForL0 l0Pa
  trackSplit := registerCurrent
  clean entry := entry &&& 0x07FFFFFFFFFFFFFF
  cleanSplit entry := entry
  keptBits := 0xFFF0000000000FFF
  attrBits := pteAttrBits

def mapPageUnderL0 (l0Pa va pa : Nat) (flags : MapFlags) : SysM Unit :=
  if va % pageSize ≠ 0 ∨ pa % pageSize ≠ 0 then Prog.throw .invalidArgs
  else (walker l0Pa).mapPage l0Pa va pa flags

end Sys

/-! ## Local objects -/

/-- A local `Vmo` beside the rest of the state. -/
structure Scope where
  vmo : Vmo
  sys : Sys

abbrev ScopeM := Prog Scope Status

namespace Scope

def onVmo {α : Type} (m : VmoM α) : ScopeM α :=
  Prog.zoom (fun t => ⟨t.vmo, t.sys.mm⟩) (fun v t => ⟨v.vmo, { t.sys with mm := v.mm }⟩) m

def onSys {α : Type} (m : SysM α) : ScopeM α := Prog.zoom Scope.sys (fun sys t => { t with sys }) m

end Scope

namespace Sys

def dropVmo (v : Vmo) : SysM Unit := onMm v.drop

def withVmo (size : Nat) (body : ScopeM Unit) : SysM Unit := do
  let v ← onMm (Vmo.createWithSize size)
  fun s => match body ⟨v, s⟩ with
    | .ok _ t => dropVmo t.vmo t.sys
    | .err e t => (do dropVmo t.vmo; Prog.throw e : SysM Unit) t.sys
    | .fault t => .fault t.sys

/-! ## The parts of a launch -/

/-- Whether the process table has an empty slot. -/
def hasSlot (s : Sys) : Bool := (s.os.processes.insert? Process.newDummy).isSome

/-- `HandleSlots::new` panics when there is no frame for the slots. -/
def newHandleTable : MmM Nat := do
  match ← Prog.attempt allocKheapPage with
  | .ok pa => return pa
  | .error _ => Prog.fault

/-- `allocate_process` with `init_in_place`. -/
def allocateProcess (parentPid : Nat) : SysM Nat := do
  let s ← Prog.get
  if !s.hasSlot then Prog.throw .noMemory
  else
    match ← Prog.attempt (onMm (Vmar.create 0 (256 * 1024 * 1024))) with
    | .error e => onOs (Os.allocateProcess parentPid (some e))
    | .ok vmar =>
      let handleTable ← onMm newHandleTable
      let pid ← onOs (Os.allocateProcess parentPid none)
      Prog.modify (setSpace pid { vmar, handleTable, tree := .empty })
      return pid

def reserve (pid vmoId vmoOffset va size : Nat) (flags : VmarFlags) : SysM Unit := fun s =>
  match (s.space pid).vmar.reserveMapping vmoId vmoOffset va size flags with
  | .ok vmar => .ok () (s.setSpace pid { s.space pid with vmar })
  | .error e => .err e s

/-- Map one page of the local object; a page without a frame is an `unwrap` on `None`. -/
def mapOne (pid va : Nat) (flags : MapFlags) (i : Nat) : ScopeM Unit := do
  let t ← Prog.get
  match t.vmo.getPagePhys t.sys.mm.mem (i * pageSize) with
  | none => Prog.fault
  | some pa => Scope.onSys (onTree pid (PageTableTree.mapVa (wadd va (i * pageSize)) pa flags))

/-- Reserve a range of the root region and map the local object there. -/
def mapObject (pid offset size : Nat) (flags : VmarFlags) (mapFlags : MapFlags) : ScopeM Unit := do
  let t ← Prog.get
  let va := wadd (t.sys.space pid).vmar.base offset
  Scope.onSys (reserve pid t.vmo.id 0 va size flags)
  Prog.forEach (mapOne pid va mapFlags) (List.range (size / 4096))

end Sys

/-- An entry of a program image; `payload` is absent when the parser cannot return it. -/
structure Segment where
  ty : Nat
  virtualAddress : Nat
  memSize : Nat
  fileSize : Nat
  payload : Option (List UInt8)

/-- The entries of an image in order; the launcher skips the ones that the parser rejects. -/
structure Image where
  entries : List (Option Segment)

namespace Segment

def typeText : Nat := 1

def loads (g : Segment) : Bool := g.ty == 1 || g.ty == 2 || g.ty == 3 || g.ty == 4

def alignedVaddr (g : Segment) : Nat := g.virtualAddress / 4096 * 4096

def alignmentOffset (g : Segment) : Nat := g.virtualAddress - g.alignedVaddr

def alignedSize (g : Segment) : Nat :=
  wadd (wadd g.memSize g.alignmentOffset) 4095 / 4096 * 4096

def vmarFlags (g : Segment) : VmarFlags :=
  if g.ty = typeText then ⟨VmarFlags.read.bits + VmarFlags.execute.bits + VmarFlags.user.bits⟩
  else ⟨VmarFlags.read.bits + VmarFlags.write.bits + VmarFlags.user.bits⟩

def mapFlags (g : Segment) : MapFlags := if g.ty = typeText then .userRx else .userRw

end Segment

/-- The arguments of a program, within the bounds of the buffers that hold them. -/
structure Argv where
  strs : List (List UInt8)
  count_le : strs.length ≤ 16
  len_le : ∀ s ∈ strs, s.length ≤ 256

def stackSize : Nat := 16 * 1024
def stackVa : Nat := 0x2000000
def stackTop : Nat := stackVa + stackSize
def kernelStackPages : Nat := 4

namespace Argv

def padded (n : Nat) : Nat := (n + 15) / 16 * 16

/-- Bytes taken on the stack, before alignment. -/
def area (a : Argv) : Nat :=
  a.strs.length * 8 + (a.strs.map fun s => padded s.length).sum + 16

/-- Copy the strings upward from `cursor`, each with a zero byte behind it. The result is the list of
their addresses and the place behind them. -/
def copyStrings (l0Pa : Nat) : List (List UInt8) → Nat → MmM (List Nat × Nat)
  | [], cursor => pure ([], cursor)
  | s :: ss, cursor => do
    safeCopyToUser l0Pa s cursor
    safeCopyToUser l0Pa [0] (cursor + s.length)
    let (vas, last) ← copyStrings l0Pa ss (cursor + padded s.length)
    return (cursor :: vas, last)

/-- The strings and then the array of pointers to them. -/
def materialise (a : Argv) (l0Pa : Nat) : MmM Unit := do
  if a.strs.length > 0 then
    let sp := (stackTop - a.area) / 16 * 16
    let (vas, ptr) ← copyStrings l0Pa a.strs sp
    Prog.forEach (fun p => safeCopyToUser l0Pa (Mem.toBytes 8 p.1) (ptr + p.2 * 8)) vas.zipIdx
  else pure ()

end Argv

namespace Sys

/-- Write the bytes of the segment into the local object. -/
def fillSegment (g : Segment) : ScopeM Unit :=
  if g.fileSize > 0 then
    match g.payload with
    | none => Prog.throw .invalidArgs
    | some bytes => do let _ ← Scope.onVmo (Vmo.write g.alignmentOffset bytes)
  else pure ()

/-- One segment: its object lives for this iteration only. -/
def loadSegment (pid : Nat) (g : Segment) : SysM Unit :=
  if g.loads then
    withVmo g.alignedSize do
      Scope.onVmo Vmo.commitAll
      fillSegment g
      mapObject pid g.alignedVaddr g.alignedSize g.vmarFlags g.mapFlags
  else pure ()

def loadEntry (pid : Nat) : Option Segment → SysM Unit
  | none => pure ()
  | some g => loadSegment pid g

/-- A mapping whose failure is only reported. -/
def tryMap (pid va pa : Nat) (flags : MapFlags) : SysM Unit := do
  let _ ← Prog.attempt (onTree pid (PageTableTree.mapVa va pa flags))

/-- Root, device pages and the part that is shared with the active tables. -/
def setupTree (pid active : Nat) : SysM Unit := do
  onTree pid PageTableTree.allocateRoot
  tryMap pid 0x09000000 0x09000000 .deviceRwUser
  tryMap pid 0x08010000 0x08010000 .deviceRwUser
  if active ≠ 0 then
    onTree pid (Prog.modify (PageTableTree.cloneHighHalf active))
    onTree pid (Prog.modify (PageTableTree.cloneIdentityBlock active))

/-- Write to the last bytes of the stack. -/
def touchStack (pid : Nat) : SysM Unit := Prog.modify fun s =>
  match (s.space pid).tree.translateVa s.mm.mem (stackTop - 16) with
  | some pa => { s with mm := s.mm.setMem (s.mm.mem.store64 pa 0) }
  | none => s

/-- `Thread::new_user`. -/
def newUserThread (pid : Nat) : SysM Tcb := do
  Prog.forEach (fun _ => onMm (do let _ ← allocKstackPage)) (List.range kernelStackPages)
  onOs (Os.newThread none pid)

/-- The stack, whose object lives to the end of the launch, and the thread. -/
def startThread (pid : Nat) (argv : Argv) : ScopeM Unit := do
  Scope.onVmo Vmo.commitAll
  mapObject pid stackVa stackSize ⟨VmarFlags.read.bits + VmarFlags.write.bits + VmarFlags.user.bits⟩
    { MapFlags.kernelRw with user := true, writable := true }
  Scope.onSys (touchStack pid)
  let thread ← Scope.onSys (newUserThread pid)
  let t ← Prog.get
  Scope.onSys (onMm (argv.materialise (t.sys.space pid).tree.l0Pa))
  Scope.onSys (onOs (Os.onSched (Scheduler.add thread)))

/-- `launch_user_program`; `active` is the root of the tables in use. There is no image when the
parser rejects the file. -/
def launch (image : Option Image) (argv : Argv) (active parentPid : Nat) : SysM Nat :=
  match image with
  | none => Prog.throw .invalidArgs
  | some image => do
    let pid ← allocateProcess parentPid
    setupTree pid active
    Prog.forEach (loadEntry pid) image.entries
    withVmo stackSize (startThread pid argv)
    return pid

/-! ## Reaping -/

/-- `Process::drop`, and then the drop of the fields: the root region owns its page, the handle table
owns nothing. -/
def dropSpace (pid : Nat) : SysM Unit := do
  onTree pid PageTableTree.freeTree
  let s ← Prog.get
  onMm (s.space pid).vmar.drop

/-- The status of the child goes to the caller's memory; a failure to copy it is ignored. -/
def deliverStatus (caller : Nat) (pid : Int) (statusPtr : Nat) : SysM Unit := do
  let s ← Prog.get
  match s.os.processes.find? fun p => p.isChild caller pid && p.reapable with
  | some p =>
    if pid < -1 ∨ statusPtr = 0 then pure ()
    else
      let l0Pa := if (s.os.findProcess caller).isSome then (s.space caller).tree.l0Pa else 0
      let _ ← Prog.attempt (onMm (safeCopyToUser l0Pa
        (Mem.toBytes 4 ((p.exitStatus.getD 0) % 2 ^ 32).toNat) statusPtr))
  | none => pure ()

def wait4 (pid : Int) (statusPtr : Nat) : SysM Nat := do
  let caller ← onOs Os.currentProcessId
  deliverStatus caller pid statusPtr
  let reaped ← onOs (Os.wait4 pid)
  dropSpace reaped
  return reaped

def procMgmtWait (pid : Int) : SysM Nat := do
  let caller ← onOs Os.currentProcessId
  match ← onOs (Os.reap caller pid) with
  | some p =>
    dropSpace p.id
    return ((p.exitStatus.getD 0) % 2 ^ 32).toNat
  | none => Prog.throw .tryAgain

/-! ## Processes over given tables -/

/-- `PROC_MGMT_RELEASE_PT`. -/
def procMgmtReleasePt (l0Pa : Nat) : SysM Unit :=
  if l0Pa = 0 ∨ l0Pa % 4096 ≠ 0 then Prog.throw .invalidArgs else onMm (freePageTableTree l0Pa)

end Sys

end CapsuleOS
