import CapsuleOS.Ohlink.Format

/-!
# Building an image

The header, the entries, and then the payloads of the segments, each at the next offset that its
alignment allows.
-/
namespace CapsuleOS.Ohlink

open Lib

/-- The arguments of `add_segment`. -/
structure Segment where
  ty : BitVec 32
  flags : BitVec 32
  data : List UInt8
  memSize : BitVec 64
  virtualAddress : BitVec 64
  alignment : BitVec 64

/-- The entry before its place is known. -/
def Segment.entry (g : Segment) : Entry where
  ty := g.ty
  flags := g.flags
  fileOffset := 0
  virtualAddress := g.virtualAddress
  fileSize := BitVec.ofNat 64 g.data.length
  memSize := g.memSize
  alignment := g.alignment
  link := 0
  info := 0
  nameOffset := 0

structure Builder where
  header : Header
  entries : List Entry
  sectionsData : List (List UInt8)

namespace Builder

def new (arch : BitVec 8) (fileType : BitVec 16) (flags : BitVec 32) (entryPoint : BitVec 64) : Builder where
  header :=
    { magic := Header.magicValue
      versionMajor := 1
      versionMinor := 1
      endian := 0
      arch := arch
      fileType := fileType
      headerCount := 0
      headerOffset := Header.defaultOffset
      dataOffset := 0
      fileSize := 0
      checksum := 0
      flags := flags
      entryPoint := entryPoint
      reserved := ⟨List.replicate 18 0, rfl⟩ }
  entries := []
  sectionsData := []

def addSegment (b : Builder) (g : Segment) : Builder where
  header := { b.header with headerCount := BitVec.ofNat 16 (b.entries.length + 1) }
  entries := b.entries ++ [g.entry]
  sectionsData := b.sectionsData ++ [g.data]

/-- No alignment is an alignment of 16. -/
def alignmentOf (e : Entry) : Nat := if e.alignment.toNat > 0 then e.alignment.toNat else 16

def alignedOffset (profile : Profile) (current alignment : Nat) : Option Nat := do
  let top ← profile.sub (← profile.add current alignment) 1
  let mask ← profile.sub alignment 1
  return (BitVec.ofNat 64 top &&& ~~~BitVec.ofNat 64 mask).toNat

/-- Append the payloads and enter their offsets. -/
def placeAll (profile : Profile) : List (Entry × List UInt8) → Nat → List UInt8 →
    Option (List Entry × List UInt8)
  | [], _, buf => some ([], buf)
  | (e, data) :: rest, current, buf => do
    let aligned ← alignedOffset profile current (alignmentOf e)
    let buf := if aligned > current then buf ++ List.replicate (aligned - current) 0 else buf
    let next ← profile.add aligned data.length
    let (entries, buf) ← placeAll profile rest next (buf ++ data)
    return ({ e with fileOffset := BitVec.ofNat 64 aligned } :: entries, buf)

/-- Write the entries from `off` on. -/
def writeEntries : List Entry → Nat → List UInt8 → List UInt8
  | [], _, buf => buf
  | e :: es, off, buf => writeEntries es (off + Entry.size) (splice buf off e.toBytes)

/-- The image; no result is a panic. -/
def build (profile : Profile) (b : Builder) : Option (List UInt8) := do
  let dataStart := Header.size + b.entries.length * Entry.size
  let (entries, buf) ← placeAll profile (b.entries.zip b.sectionsData) dataStart (List.replicate dataStart 0)
  let header := { b.header with
    dataOffset := BitVec.ofNat 32 dataStart
    fileSize := BitVec.ofNat 64 buf.length }
  let buf := writeEntries entries Header.size (splice buf 0 header.toBytes)
  let buf := splice buf 30 [0, 0, 0, 0]
  return splice buf 30 (leBytes (crc32Ieee buf))

end Builder

/-- The builder with all segments. -/
def builderOf (arch : BitVec 8) (fileType : BitVec 16) (flags : BitVec 32) (entryPoint : BitVec 64)
    (segments : List Segment) : Builder :=
  segments.foldl Builder.addSegment (.new arch fileType flags entryPoint)

end CapsuleOS.Ohlink
