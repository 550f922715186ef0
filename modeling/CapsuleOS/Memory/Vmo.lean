import CapsuleOS.Memory.Phys

/-!
# Virtual memory objects

A VMO keeps its slot table (one optional frame per page) in metadata pages and, beside it, the
vector of frames that it owns. The first metadata page holds a 48-byte header, 249 slots of 16
bytes and, in its last 64 bytes, the addresses of the other metadata pages.

A `PhysPage` is modelled by its address; the routines that drop one say so. Methods that take
`&mut self` run on a `VmoState`, so that what they did to the object before an error stays.
-/
namespace CapsuleOS

open Lib

def vmoMagic : Nat := 0x564D4F4D41474341
def vmoVersion : Nat := 1
def vmoMaxPages : Nat := 2048
def paTableSize : Nat := 64
def paTableBase : Nat := pageSize - paTableSize

def headerSize : Nat := 48
def slotSize : Nat := 16
def slotsPerPage : Nat := (paTableBase - headerSize) / slotSize
def metaPagesNeeded (pageCount : Nat) : Nat := (pageCount + slotsPerPage - 1) / slotsPerPage

structure Vmo where
  id : Nat
  metaPage : Nat
  size : Nat
  isCow : Bool
  parentId : Option Nat
  extraMetaPages : List (Option Nat)
  committedPages : List (Option Nat)
  deriving DecidableEq

/-- A VMO together with the memory manager. -/
structure VmoState where
  vmo : Vmo
  mm : Mm

abbrev VmoM := Prog VmoState Status

def VmoState.store (a : Nat) (bytes : List UInt8) (s : VmoState) : VmoState :=
  { s with mm := s.mm.setMem (s.mm.mem.store a bytes) }

/-! ## Metadata layout -/

/-- Address of the slot of a page. The number of metadata pages is passed and not used. -/
def slotPtr (m : Mem) (metaPa _mpn pageIdx : Nat) : Nat :=
  let metaIdx := pageIdx / slotsPerPage
  let slotOff := pageIdx % slotsPerPage
  let pa := if metaIdx = 0 then metaPa
    else m.load64 (metaPa + (paTableBase + (metaIdx - 1) * 8))
  pa + (headerSize + slotOff * slotSize)

/-- A slot is an `Option<PhysAddr>`: a discriminant and an address. -/
def readSlot (m : Mem) (slot : Nat) : Option Nat :=
  if m.load64 slot = 0 then none else some (m.load64 (slot + 8))

/-- Store `Some(pa)` in a slot. -/
def writeSlot (m : Mem) (slot pa : Nat) : Mem := (m.store64 slot 1).store64 (slot + 8) pa

namespace Vmo

def pageCount (v : Vmo) : Nat := v.size / pageSize

def metaPageCount (v : Vmo) (m : Mem) : Nat := m.load64 (v.metaPage + 40)

def pageSlot (v : Vmo) (m : Mem) (pageIdx : Nat) : Nat :=
  slotPtr m v.metaPage (v.metaPageCount m) pageIdx

/-- The frame that the slot table gives for a page. -/
def slot (v : Vmo) (m : Mem) (pageIdx : Nat) : Option Nat := readSlot m (v.pageSlot m pageIdx)

def getPagePhys (v : Vmo) (m : Mem) (offset : Nat) : Option Nat :=
  if offset ≥ v.size then none else v.slot m (offset / pageSize)

/-- The frames that a VMO owns, in the order in which its fields are dropped. -/
def owned (v : Vmo) : List Nat :=
  v.metaPage :: (Cells.occupants v.extraMetaPages ++ Cells.occupants v.committedPages)

def drop (v : Vmo) : MmM Unit := dropPhysPages v.owned

/-! ## Creation -/

def writeHeader (m : Mem) (base pages committed mpn : Nat) : Mem :=
  (((((m.store64 base vmoMagic).store64 (base + 8) vmoVersion).store64 (base + 16) pages).store64
    (base + 24) committed).store64 (base + 32) (pages * pageSize)).store64 (base + 40) mpn

/-- Allocate the metadata pages with the given indices and enter them in the pointer table. An
error return drops the pages allocated so far. -/
def addMetaPages (metaPa : Nat) : List Nat → List (Option Nat) → MmM (List (Option Nat))
  | [], extra => pure extra
  | i :: is, extra => do
    match ← Prog.attempt allocVmoMeta with
    | .ok pa =>
      Prog.modify fun m => m.setMem (m.mem.store64 (metaPa + (paTableBase + (i - 1) * 8)) pa)
      addMetaPages metaPa is (extra.set (i - 1) (some pa))
    | .error e =>
      dropPhysPages (Cells.occupants extra)
      dropPhysPage metaPa
      Prog.throw e

def newId : MmM Nat := fun m => .ok m.vmoIdCounter { m with vmoIdCounter := wadd m.vmoIdCounter 1 }

/-- `size` rounded up to pages, as the wrapping source arithmetic does it. -/
def pagesOf (size : Nat) : Nat := wsub (wadd size pageSize) 1 / pageSize

/-- Metadata pages with a header, shared by both kinds of creation. -/
def createMeta (pages committed : Nat) : MmM (Nat × List (Option Nat)) := do
  let mpn := metaPagesNeeded pages
  let metaPa ← allocVmoMeta
  Prog.modify fun m => m.setMem (writeHeader m.mem metaPa pages committed mpn)
  let extra ← addMetaPages metaPa (List.range' 1 (mpn - 1)) (List.replicate 8 none)
  return (metaPa, extra)

/-- The object over the metadata pages `parts`. -/
def ofMeta (id : Nat) (parts : Nat × List (Option Nat)) (pages : Nat)
    (committedPages : List (Option Nat)) : Vmo :=
  { id
    metaPage := parts.1
    size := pages * pageSize
    isCow := false
    parentId := none
    extraMetaPages := parts.2
    committedPages }

def createWithSize (size : Nat) : MmM Vmo := do
  if size = 0 then Prog.throw .invalidArgs
  else
    let pages := pagesOf size
    if pages > vmoMaxPages then Prog.throw .invalidArgs
    else
      let parts ← createMeta pages 0
      let id ← newId
      return ofMeta id parts pages (List.replicate pages none)

/-! ## Commit -/

/-- Enter a fresh frame in the slot table and in the vector of owned frames. -/
def enter (v : Vmo) (pageIdx pa : Nat) (mm : Mm) : VmoState :=
  let mem := writeSlot mm.mem (v.pageSlot mm.mem pageIdx) pa
  let mem := mem.store64 (v.metaPage + 24) (wadd (mem.load64 (v.metaPage + 24)) 1)
  { vmo := { v with committedPages := v.committedPages.set pageIdx (some pa) }
    mm := mm.setMem mem }

/-- Whether a page is committed is decided by the vector of owned frames. -/
def commitPage (offset : Nat) : VmoM (Option Nat) := fun s =>
  let pageIdx := offset / pageSize
  if offset ≥ s.vmo.size then .err .invalidArgs s
  else if s.vmo.committedPages.isEmpty then .err .notAllowed s
  else match s.vmo.committedPages[pageIdx]? with
    | none => .fault s
    | some (some _) => .ok none s
    | some none =>
      match allocVmoData s.mm with
      | .ok pa mm => .ok (some pa) (s.vmo.enter pageIdx pa mm)
      | .err e mm => .err e { s with mm }
      | .fault mm => .fault { s with mm }

def commitAll : VmoM Unit := do
  let s ← Prog.get
  Prog.forEach (fun i => do let _ ← commitPage (i * pageSize)) (List.range (s.vmo.size / pageSize))

/-! ## Reading and writing -/

/-- How many bytes one round moves: to the end of the page, of the buffer or of the object. -/
def chunk (size len written cur : Nat) : Nat :=
  min (cur + min (pageSize - cur % pageSize) (len - written)) size - cur

/-- `n` bytes of one page; an absent page reads as zero. -/
def pageBytes (v : Vmo) (m : Mem) (cur n : Nat) : List UInt8 :=
  match v.slot m (cur / pageSize) with
  | some pa => m.load (pa + cur % pageSize) n
  | none => List.replicate n 0

/-- The reading loop. Every round moves at least one byte, so the length of the buffer is fuel
enough. -/
def readLoop (v : Vmo) (m : Mem) : Nat → Nat → Nat → List UInt8 → Nat × List UInt8
  | 0, written, _, buf => (written, buf)
  | fuel + 1, written, cur, buf =>
    if written < buf.length ∧ cur < v.size then
      let real := chunk v.size buf.length written cur
      readLoop v m fuel (written + real) (cur + real)
        (splice buf written (v.pageBytes m cur real))
    else (written, buf)

def read (v : Vmo) (m : Mem) (offset : Nat) (buf : List UInt8) : Nat × List UInt8 :=
  if offset ≥ v.size then (0, buf) else readLoop v m buf.length 0 offset buf

/-- Whether a page has to be committed before a write is decided by the slot table. -/
def ensureSlot (cur : Nat) : VmoM Unit := do
  let s ← Prog.get
  if (s.vmo.slot s.mm.mem (cur / pageSize)).isNone then
    let _ ← commitPage (cur / pageSize * pageSize)

def writeLoop (buf : List UInt8) : Nat → Nat → Nat → VmoM Nat
  | 0, written, _ => pure written
  | fuel + 1, written, cur => do
    let s ← Prog.get
    if written < buf.length ∧ cur < s.vmo.size then
      ensureSlot cur
      let s ← Prog.get
      match s.vmo.slot s.mm.mem (cur / pageSize) with
      | none => Prog.fault
      | some pa =>
        let real := chunk s.vmo.size buf.length written cur
        Prog.modify (VmoState.store (pa + cur % pageSize) ((buf.drop written).take real))
        writeLoop buf fuel (written + real) (cur + real)
    else pure written

def write (offset : Nat) (buf : List UInt8) : VmoM Nat := do
  let s ← Prog.get
  if offset ≥ s.vmo.size then return 0
  else writeLoop buf buf.length 0 offset

/-! ## Derived objects -/

/-- The frame a slice takes over from its parent for one page, without owning it. -/
def sliceFrame (v : Vmo) (m : Mem) (idx : Nat) : Option (Option Nat) :=
  if v.committedPages.isEmpty then
    some (readSlot m (slotPtr m v.metaPage (metaPagesNeeded v.pageCount) idx))
  else v.committedPages[idx]?

def createChildSlice (v : Vmo) (newId offset size : Nat) : MmM Vmo := do
  if offset % pageSize ≠ 0 ∨ size % pageSize ≠ 0 then Prog.throw .invalidArgs
  else if wadd offset size > v.size then Prog.throw .invalidArgs
  else
    let pages := size / pageSize
    let start := offset / pageSize
    let child ← createWithSize size
    let child := { child with id := newId, parentId := some v.id }
    Prog.modify fun m => m.setMem (m.mem.store64 (child.metaPage + 24) pages)
    Prog.forEach (fun i => do
      let m ← Prog.get
      match v.sliceFrame m.mem (start + i) with
      | none => Prog.fault
      | some none => pure ()
      | some (some pa) =>
        Prog.modify fun m => m.setMem (writeSlot m.mem (child.pageSlot m.mem i) pa))
      (List.range pages)
    return child

/-- The clone shares the metadata pages and takes a copy of the vector of owned frames, every
entry of which is again an owner. -/
def clone (v : Vmo) : Vmo :=
  { v with committedPages :=
      if v.committedPages.isEmpty then [] else v.committedPages.take (v.size / pageSize) }

end Vmo

end CapsuleOS
