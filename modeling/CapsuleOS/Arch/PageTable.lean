import CapsuleOS.Memory.Phys

/-!
# Page tables

Four levels of tables of 512 eight-byte descriptors, and the routines that build, share and free
them. Table pages are reached by physical address; cache and TLB maintenance does not appear, nor do
the messages that `validate` logs.

`map_va` of a process's tree and `map_page_under_l0` are the same walk written twice. They differ in
whose list of table pages a new one is entered in, in what they mask out of a table descriptor and
of a block that is split, and in their copies of `pte_attr_bits`; `Walker` holds these differences.
-/
namespace CapsuleOS

open Lib

/-! ## Descriptors -/

def pteValid : Nat := 1
def pteTypeBlock : Nat := 1
def pteTypeTable : Nat := 3
def pteTypePage : Nat := 3
def pteAf : Nat := 0x400
def pteNormalWb : Nat := 0x700
def pteDevice : Nat := 0x404
/-- AP[1], the descriptor grants access from EL0. -/
def pteApUser : Nat := 0x40
/-- AP[2], the access is read-only. -/
def pteApRo : Nat := 0x80
def pteUxn : Nat := 2 ^ 53
def pteXn : Nat := 2 ^ 54
def pteAddrMask : Nat := 0x0000FFFFFFFFF000

def isValid (e : Nat) : Bool := e.testBit 0
def isTable (e : Nat) : Bool := e.testBit 1

/-- `pa_to_pte_addr`, and the address that is read back from a descriptor. -/
def pteAddr (e : Nat) : Nat := e &&& pteAddrMask

def vaL0Index (va : Nat) : Nat := va / 2 ^ 39 % 512
def vaL1Index (va : Nat) : Nat := va / 2 ^ 30 % 512
def vaL2Index (va : Nat) : Nat := va / 2 ^ 21 % 512
def vaL3Index (va : Nat) : Nat := va / 2 ^ 12 % 512

inductive MemAttr where
  | normalCacheable
  | device
  deriving DecidableEq

structure MapFlags where
  memAttr : MemAttr
  readable : Bool
  writable : Bool
  executable : Bool
  user : Bool
  deriving DecidableEq

namespace MapFlags

def kernelRw : MapFlags := ⟨.normalCacheable, true, true, false, false⟩
def userRw : MapFlags := ⟨.normalCacheable, true, true, false, true⟩
def userRx : MapFlags := ⟨.normalCacheable, true, false, true, true⟩
def deviceRwUser : MapFlags := ⟨.device, true, true, false, true⟩

end MapFlags

def memAttrBits : MemAttr → Nat
  | .normalCacheable => pteNormalWb
  | .device => pteDevice

/-- A page that is neither for the user nor writable gets the bit that opens it to EL0. -/
def apBits (flags : MapFlags) : Nat :=
  if flags.user then
    if flags.writable then pteApUser else pteApUser ||| pteApRo
  else if !flags.writable then pteApUser else 0

def pteAttrBits (flags : MapFlags) : Nat :=
  memAttrBits flags.memAttr ||| apBits flags |||
    if flags.executable then 0 else pteXn ||| pteUxn

def tableEntry (pa : Nat) : Nat := pteAddr pa ||| pteValid ||| pteTypeTable

def pageEntry (pa : Nat) (flags : MapFlags) : Nat :=
  pteAddr pa ||| pteValid ||| pteTypePage ||| pteAttrBits flags

/-- A 1 GiB block of the kernel, without access from EL0. -/
def l1Block (pa : Nat) (attr : MemAttr) : Nat :=
  pteAddr pa ||| pteValid ||| pteTypeBlock ||| memAttrBits attr ||| pteXn

/-- The descriptor of part `i` of a block that is split: the attributes are those of the block, open
to EL0 and executable. `kept` masks the attribute bits. -/
def blockPart (kept size type original i : Nat) : Nat :=
  pteAddr (pteAddr original + i * size) ||| pteValid ||| type |||
    (((original &&& kept) ||| pteApUser) &&& (2 ^ 64 - 1 - pteXn - pteUxn))

def readPte (m : Mem) (table idx : Nat) : Nat := m.load64 (table + idx * 8)

def writePte (m : Mem) (table idx entry : Nat) : Mem := m.store64 (table + idx * 8) entry

/-! ## The mapping walk -/

/-- One of the two implementations, over a state `σ` that holds the memory manager. -/
structure Walker (σ : Type) where
  view : σ → Mm
  put : Mm → σ → σ
  /-- Enter a new table page in a list of table pages. -/
  track : Nat → σ → σ
  /-- The same for the table that replaces a block. -/
  trackSplit : Nat → σ → σ
  /-- What is written of the descriptor of a new table. -/
  clean : Nat → Nat
  /-- The same for the table that replaces a block. -/
  cleanSplit : Nat → Nat
  /-- The attribute bits that the parts of a block keep. -/
  keptBits : Nat
  /-- The walk's own `pte_attr_bits`. -/
  attrBits : MapFlags → Nat

namespace Walker

variable {σ : Type} (w : Walker σ)

def onMm {α : Type} (m : MmM α) : Prog σ Status α := Prog.zoom w.view w.put m

def write (table idx entry : Nat) : Prog σ Status Unit :=
  w.onMm (Prog.modify fun m => m.setMem (writePte m.mem table idx entry))

def newTable (table idx : Nat) : Prog σ Status Nat := do
  let pa ← w.onMm allocPtPage
  w.write table idx (w.clean (tableEntry pa))
  Prog.modify (w.track pa)
  return pa

/-- Replace a block by a table of 512 parts. -/
def split (size type table idx original : Nat) : Prog σ Status Nat := do
  let pa ← w.onMm allocPtPage
  Prog.modify (w.trackSplit pa)
  Prog.forEach (fun i => w.write pa i (blockPart w.keptBits size type original i)) (List.range 512)
  w.write table idx (w.cleanSplit (tableEntry pa))
  return pa

def shatterL1Block : Nat → Nat → Nat → Prog σ Status Nat := w.split 0x200000 pteTypeBlock

def shatterL2Block : Nat → Nat → Nat → Prog σ Status Nat := w.split 0x1000 pteTypePage

/-- The table of the next level: follow a table descriptor, deal with a block, or allocate. -/
def enterTable (onBlock : Nat → Nat → Nat → Prog σ Status Nat) (table idx : Nat) :
    Prog σ Status Nat := do
  let s ← Prog.get
  let e := readPte (w.view s).mem table idx
  if isValid e && isTable e then return pteAddr e
  else if isValid e then onBlock table idx e
  else w.newTable table idx

/-- The descriptor that the walk writes for a page. -/
def leafEntry (pa : Nat) (flags : MapFlags) : Nat :=
  pteAddr pa ||| pteValid ||| pteTypePage ||| w.attrBits flags

def mapPage (root va pa : Nat) (flags : MapFlags) : Prog σ Status Unit := do
  let l1 ← w.enterTable (fun _ _ _ => Prog.throw .notAllowed) root (vaL0Index va)
  let l2 ← w.enterTable w.shatterL1Block l1 (vaL1Index va)
  let l3 ← w.enterTable w.shatterL2Block l2 (vaL2Index va)
  w.write l3 (vaL3Index va) (w.leafEntry pa flags)

end Walker

/-! ## The tree of a process -/

def maxTracked : Nat := 64

/-- `tracked` lists the first `count` cells of the array of tracked pages. -/
structure PageTableTree where
  l0Pa : Nat
  tracked : List Nat
  generation : Nat
  hasRoot : Bool
  deriving DecidableEq

def PageTableTree.empty : PageTableTree := ⟨0, [], 0, false⟩

/-- A tree together with the memory manager. -/
structure TreeState where
  tree : PageTableTree
  mm : Mm

abbrev TreeM := Prog TreeState Status

namespace TreeState

def onMm {α : Type} (m : MmM α) : TreeM α := Prog.zoom TreeState.mm (fun mm s => { s with mm }) m

/-- A full list drops the page without a word. -/
def track (pa : Nat) (s : TreeState) : TreeState :=
  if s.tree.tracked.length ≥ maxTracked then s
  else if pa ∈ s.tree.tracked then s
  else
    { tree := { s.tree with tracked := s.tree.tracked ++ [pa] }
      mm := { s.mm with livePtPages := registerPtPage pa s.mm.livePtPages } }

end TreeState

namespace PageTableTree

def cleanEntry (entry : Nat) : Nat := entry &&& 0x0000FFFFFFFFF003

/-- `pte_attr_bits` in `page_table.rs`, which sets the access flag on its own once more. -/
def attrBits (flags : MapFlags) : Nat := pteAttrBits flags ||| pteAf

def walker : Walker TreeState where
  view := TreeState.mm
  put mm s := { s with mm }
  track := TreeState.track
  trackSplit := TreeState.track
  clean := cleanEntry
  cleanSplit := cleanEntry
  keptBits := 0x000F000000000FFF
  attrBits := attrBits

def allocateRoot : TreeM Unit := do
  let s ← Prog.get
  if s.tree.hasRoot then Prog.throw .alreadyExists
  else
    let l0 ← TreeState.onMm allocPtPage
    let l1 ← TreeState.onMm allocPtPage
    Prog.modify fun s =>
      { tree := { l0Pa := l0, tracked := [l0, l1], generation := 1, hasRoot := true }
        mm := s.mm.setMem (writePte s.mm.mem l0 0 (cleanEntry (tableEntry l1))) }

def setRootRaw (l0Pa : Nat) (s : TreeState) : TreeState :=
  { s with tree :=
    { s.tree with l0Pa, hasRoot := true, generation := wadd s.tree.generation 1 } }.track l0Pa

/-- Copy an entry between tables unless it is empty. -/
def copyEntry (m : Mem) (src dst idx : Nat) : Mem :=
  if readPte m src idx ≠ 0 then writePte m dst idx (readPte m src idx) else m

def cloneHighHalf (parent : Nat) (s : TreeState) : TreeState :=
  if s.tree.hasRoot then
    let mem := (List.range' 256 256).foldl (fun m i => copyEntry m parent s.tree.l0Pa i) s.mm.mem
    { s with mm := s.mm.setMem mem }
  else s

/-- Of the three entries that the loop of the source visits only the middle one is copied. -/
def cloneIdentityBlock (parent : Nat) (s : TreeState) : TreeState :=
  let parentEntry := readPte s.mm.mem parent 0
  let myEntry := readPte s.mm.mem s.tree.l0Pa 0
  if s.tree.hasRoot ∧ parentEntry ≠ 0 ∧ pteAddr parentEntry ≠ 0 ∧ myEntry ≠ 0 ∧ pteAddr myEntry ≠ 0
  then
    { s with mm := s.mm.setMem (copyEntry s.mm.mem (pteAddr parentEntry) (pteAddr myEntry) 1) }
  else s

def mapVa (va pa : Nat) (flags : MapFlags) : TreeM Unit := do
  let s ← Prog.get
  if va % pageSize ≠ 0 ∨ pa % pageSize ≠ 0 then Prog.throw .invalidArgs
  else if !s.tree.hasRoot then Prog.throw .invalidArgs
  else walker.mapPage s.tree.l0Pa va pa flags

/-- The walk through the tables, for a tree that has a root. -/
def translate (m : Mem) (root va : Nat) : Option Nat :=
  let l0e := readPte m root (vaL0Index va)
  if !isValid l0e then none
  else
    let l1e := readPte m (pteAddr l0e) (vaL1Index va)
    if !isValid l1e then none
    else if !isTable l1e then some ((l1e &&& 0x0000FFFFC0000000) + va % 2 ^ 30)
    else
      let l2e := readPte m (pteAddr l1e) (vaL2Index va)
      if !isValid l2e then none
      else if !isTable l2e then some ((l2e &&& 0x0000FFFFFFE00000) + va % 2 ^ 21)
      else
        let l3e := readPte m (pteAddr l2e) (vaL3Index va)
        if !isValid l3e then none else some (pteAddr l3e + va % 2 ^ 12)

def translateVa (t : PageTableTree) (m : Mem) (va : Nat) : Option Nat :=
  if t.hasRoot then translate m t.l0Pa va else none

/-- Frees the tracked pages, the last one first. -/
def freeTree : TreeM Unit := do
  let s ← Prog.get
  if s.tree.hasRoot then
    TreeState.onMm (dropPhysPages s.tree.tracked.reverse)
    Prog.modify fun s => { s with tree := .empty }

end PageTableTree

/-! ## Validation -/

/-- What `validate` has found: the pages that it has reached, each once and no more than its array
holds, and whether all was in order. -/
structure Survey where
  reachable : List Nat
  ok : Bool

namespace Survey

def trackReachable (pa : Nat) (s : Survey) : Survey :=
  if s.reachable.length ≥ maxTracked then s
  else if pa ∈ s.reachable then s
  else { s with reachable := s.reachable ++ [pa] }

/-- Visit the first `n` entries of a table, except the invalid ones. -/
def entries (n : Nat) (m : Mem) (table : Nat) (visit : Nat → Survey → Survey) (s : Survey) : Survey :=
  (List.range n).foldl (fun s i =>
    if isValid (readPte m table i) then visit (readPte m table i) s else s) s

/-- The loops over a table with `depth` levels of tables below it. Blocks are passed over, and a
descriptor of the last level has to be a page. -/
def table (m : Mem) : Nat → Nat → Survey → Survey
  | 0, pa => entries 512 m pa fun e s => if isTable e then s else { s with ok := false }
  | depth + 1, pa => entries 512 m pa fun e s =>
    if isTable e then table m depth (pteAddr e) (s.trackReachable (pteAddr e)) else s

/-- The loop over the lower half of the root, where blocks are not allowed. -/
def lowerHalf (m : Mem) (l0Pa : Nat) : Survey → Survey :=
  entries 256 m l0Pa fun e s =>
    if isTable e then table m 2 (pteAddr e) (s.trackReachable (pteAddr e))
    else { s with ok := false }

end Survey

/-- Whether the tracked pages are the pages that can be reached in the lower half. -/
def PageTableTree.validate (t : PageTableTree) (m : Mem) : Bool :=
  if !t.hasRoot then true
  else
    let s := Survey.lowerHalf m t.l0Pa (Survey.trackReachable t.l0Pa ⟨[], true⟩)
    s.ok && t.tracked.all (fun pa => pa == 0 || s.reachable.contains pa) &&
      s.reachable.all t.tracked.contains

/-- What `mmu.rs` calls the translation of a user address: the same walk from a given root. -/
def translateUserVa (m : Mem) (l0Pa va : Nat) : Option Nat := PageTableTree.translate m l0Pa va

/-! ## Freeing by structure -/

/-- Run `m` on the table that an entry refers to, if it refers to one. -/
def forTable (table idx : Nat) (m : Nat → MmM Unit) : MmM Unit := do
  let s ← Prog.get
  let e := readPte s.mem table idx
  if isValid e && isTable e then m (pteAddr e) else pure ()

/-- Frees the tables of the lower half and the root, whoever else refers to them. -/
def freePageTableTree (l0Pa : Nat) : MmM Unit := do
  Prog.forEach (fun i => forTable l0Pa i fun l1 => do
    Prog.forEach (fun i => forTable l1 i fun l2 => do
      Prog.forEach (fun i => forTable l2 i freePage) (List.range 512)
      freePage l2) (List.range 512)
    freePage l1) (List.range 256)
  freePage l0Pa

/-! ## The kernel's own tables -/

def kernelOffset : Nat := 0xFFFF800000000000

/-- The tables that are installed when the MMU is switched on, with the root as the result. -/
def enableInner (ramBase : Nat) : MmM Nat := do
  let l0 ← allocPtPage
  let l1Id ← allocPtPage
  let l1High ← allocPtPage
  let ramVa := wadd ramBase kernelOffset
  let high := vaL1Index ramVa
  Prog.modify fun s => s.setMem <|
    let m := writePte s.mem l1Id 0 (l1Block 0 .device)
    let m := writePte m l1Id 1 (l1Block 0x40000000 .normalCacheable)
    let m := writePte m l1Id 2 (l1Block 0x80000000 .normalCacheable)
    let m := writePte m l1High high (l1Block 0x40000000 .normalCacheable)
    let m := writePte m l1High (high + 1) (l1Block 0x80000000 .normalCacheable)
    let m := writePte m l0 0 (tableEntry l1Id)
    writePte m l0 (vaL0Index ramVa) (tableEntry l1High)
  return l0

end CapsuleOS
