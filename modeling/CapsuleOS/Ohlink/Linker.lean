import Mathlib.Data.List.TakeWhile
import CapsuleOS.Ohlink.RoundTrip

/-!
# The linker

It turns the program headers of an ELF file into the segments of an image. A file without the magic bytes
of ELF becomes one segment as it is, and so does a file of at most 64 bytes.
-/
namespace CapsuleOS.Ohlink.Linker

open Lib

def elfMagic : List UInt8 := [0x7F, 69, 76, 70]

def ptLoad : BitVec 32 := 1

/-- The fields of a program header that the linker reads. -/
structure ProgramHeader where
  ty : BitVec 32
  flags : BitVec 32
  offset : BitVec 64
  vaddr : BitVec 64
  filesz : BitVec 64
  memsz : BitVec 64
  align : BitVec 64
  deriving DecidableEq

section Fields

variable (buffer : List UInt8)

def phoff : Nat := (leField 64 buffer 32).toNat
def phnum : Nat := (leField 16 buffer 56).toNat
def phentsize : Nat := (leField 16 buffer 54).toNat
def elfEntry : BitVec 64 := leField 64 buffer 24

def readHeader (offset : Nat) : ProgramHeader where
  ty := leField 32 buffer offset
  flags := leField 32 buffer (offset + 4)
  offset := leField 64 buffer (offset + 8)
  vaddr := leField 64 buffer (offset + 16)
  filesz := leField 64 buffer (offset + 32)
  memsz := leField 64 buffer (offset + 40)
  align := leField 64 buffer (offset + 48)

end Fields

/-- Every image is for user space, which is the bit of 8. -/
def ohlkFlags (flags : BitVec 32) : BitVec 32 :=
  let execute : BitVec 32 := if flags &&& 1 ≠ 0 then 8 ||| 4 else 8
  let write := if flags &&& 2 ≠ 0 then execute ||| 2 else execute
  if flags &&& 4 ≠ 0 then write ||| 1 else write

/-- Text is 1, data is 2, and read-only data is 3. -/
def ohlkType (flags : BitVec 32) : BitVec 32 :=
  if flags &&& 1 ≠ 0 then 1 else if flags &&& 2 ≠ 0 then 2 else 3

def payload (buffer : List UInt8) (h : ProgramHeader) : List UInt8 :=
  slice buffer h.offset.toNat (h.offset.toNat + h.filesz.toNat)

def segmentOf (buffer : List UInt8) (h : ProgramHeader) : Segment where
  ty := ohlkType h.flags
  flags := ohlkFlags h.flags
  data := payload buffer h
  memSize := h.memsz
  virtualAddress := h.vaddr
  alignment := h.align

/-- One round of the loop. A payload that ends before it starts panics, which is no result. -/
def packHeader (profile : Profile) (buffer : List UInt8) (h : ProgramHeader) (b : Builder) : Option Builder :=
  if h.ty = ptLoad ∧ h.filesz.toNat > 0 then do
    let stop ← profile.add h.offset.toNat h.filesz.toNat
    if stop ≤ buffer.length then
      if stop < h.offset.toNat then none else some (b.addSegment (segmentOf buffer h))
    else some b
  else some b

/-- The loop from header `i` on. It ends at a header behind the end of the file. -/
def packHeaders (profile : Profile) (buffer : List UInt8) : Nat → Nat → Builder → Option Builder
  | 0, _, b => some b
  | count + 1, i, b => do
    let offset ← profile.add (phoff buffer) (i * phentsize buffer)
    let stop ← profile.add offset 56
    if stop > buffer.length then some b
    -- where the sum wraps, the first byte that is read is behind the end
    else if offset + 56 > buffer.length then none
    else
      let b ← packHeader profile buffer (readHeader buffer offset) b
      packHeaders profile buffer count (i + 1) b

def isElf (buffer : List UInt8) : Bool := buffer.length > 64 ∧ buffer.take 4 = elfMagic

/-- The segment of a file that is taken as it is. -/
def rawSegment (buffer : List UInt8) : Segment where
  ty := 1
  flags := 1 ||| 2 ||| 4
  data := buffer
  memSize := BitVec.ofNat 64 buffer.length
  virtualAddress := 0
  alignment := 4096

/-- The image of a file, with the entry point of the command line; no result is an error or a panic. -/
def link (profile : Profile) (entry : BitVec 64) (buffer : List UInt8) : Option (List UInt8) :=
  if buffer = [] then none
  else if isElf buffer then do
    let b ← packHeaders profile buffer (phnum buffer) 0 (.new 1 1 0 (elfEntry buffer))
    b.build profile
  else ((Builder.new 1 1 0 entry).addSegment (rawSegment buffer)).build profile

/-! ## What is to be preserved -/

/-- A part of a program in memory. -/
structure Piece where
  virtualAddress : BitVec 64
  memSize : BitVec 64
  payload : List UInt8
  read : Bool
  write : Bool
  execute : Bool
  deriving DecidableEq

/-- Part `i` of a program in an image. -/
def pieceAt (p : Parser) (i : Nat) : Option Piece :=
  match p.getEntry (BitVec.ofNat 16 i) with
  | .error _ => none
  | .ok e =>
    match p.getSegmentData .release e with
    | .error _ => none
    | .ok data =>
      some ⟨e.virtualAddress, e.memSize, data, e.flags &&& 1 ≠ 0, e.flags &&& 2 ≠ 0, e.flags &&& 4 ≠ 0⟩

/-- The parts of the program in an image. -/
def HasPieces (p : Parser) (pieces : List Piece) : Prop :=
  p.header.headerCount.toNat = pieces.length ∧ ∀ (i : Nat) (c : Piece), pieces[i]? = some c → pieceAt p i = some c

/-- A part of the program in an ELF file, where the bits for read and execute are the other way round. -/
def ProgramHeader.piece (file : List UInt8) (h : ProgramHeader) : Piece :=
  ⟨h.vaddr, h.memsz, payload file h, h.flags &&& 4 ≠ 0, h.flags &&& 2 ≠ 0, h.flags &&& 1 ≠ 0⟩

def headerOffset (file : List UInt8) (i : Nat) : Nat := phoff file + i * phentsize file

def programHeaders (file : List UInt8) : List ProgramHeader :=
  (List.range (phnum file)).map fun i => readHeader file (headerOffset file i)

def loads (file : List UInt8) : List ProgramHeader := (programHeaders file).filter (·.ty = ptLoad)

/-- The parts of the program in an ELF file that take memory. -/
def livePieces (file : List UInt8) : List Piece := ((loads file).filter (·.memsz ≠ 0)).map (·.piece file)

/-- A file with the identification of a little-endian file for 64 bits, and with a whole header. -/
structure IsElf64 (file : List UInt8) : Prop where
  long : 64 ≤ file.length
  ident : file.take 6 = elfMagic ++ [2, 1]

def HeadersInside (file : List UInt8) : Prop := ∀ i < phnum file, headerOffset file i + 56 ≤ file.length

def PayloadsInside (file : List UInt8) : Prop :=
  ∀ h ∈ loads file, h.filesz ≠ 0 → h.offset.toNat + h.filesz.toNat ≤ file.length

/-- The image has the program of the file, and the file was whole. -/
structure Preserves (file image : List UInt8) : Prop where
  headersInside : HeadersInside file
  payloadsInside : PayloadsInside file
  same : ∃ p pieces, Parser.new image = .ok p ∧ p.header.entryPoint = elfEntry file ∧ HasPieces p pieces ∧
    pieces.filter (·.memSize ≠ 0) = livePieces file

/-- The file is whole, and no part of the program is without bytes in the file. A file that ends with its
header is taken as it is, so the only part must be the file. -/
structure Convertible (entry : BitVec 64) (file : List UInt8) : Prop where
  headersInside : HeadersInside file
  payloadsInside : PayloadsInside file
  kept : 64 < file.length ∧ (∀ h ∈ loads file, h.memsz ≠ 0 → h.filesz ≠ 0) ∨
    file.length = 64 ∧ entry = elfEntry file ∧ livePieces file = [⟨0, 64, file, true, true, true⟩]

/-! ## The image -/

def Segment.piece (g : Segment) : Piece :=
  ⟨g.virtualAddress, g.memSize, g.data, g.flags &&& 1 ≠ 0, g.flags &&& 2 ≠ 0, g.flags &&& 4 ≠ 0⟩

section Image

variable {file image : List UInt8} {entry : BitVec 64} {segments : List Segment}

/-- An image of segments has the parts of the segments. -/
theorem build_pieces {entryPoint : BitVec 64} (few : segments.length < 65536)
    (run : (builderOf 1 1 0 entryPoint segments).build .dev = some image) : ∃ p, Parser.new image = .ok p ∧
      p.header.entryPoint = entryPoint ∧ HasPieces p (segments.map Segment.piece) := by
  obtain ⟨sums, fits⟩ := build_dev few run
  obtain ⟨image', p, es, run', accepted, ⟨-, -, -, entry_eq⟩, count, found, placed⟩ :=
    build_accepted 1 1 0 entryPoint few fits (.inr sums)
  obtain rfl : image' = image := Option.some.inj (run'.symm.trans run)
  refine ⟨p, accepted, entry_eq, by rw [count, List.length_map], fun i c here => ?_⟩
  rw [List.getElem?_map, Option.map_eq_some_iff] at here
  obtain ⟨g, here, rfl⟩ := here
  obtain ⟨before, -, e_here, small, inside, data⟩ := placed.get here
  simp only [pieceAt, found e_here, getSegmentData_laid small inside data]
  rfl

/-- What the linker makes of a header. -/
def segment? (buffer : List UInt8) (h : ProgramHeader) : Option Segment :=
  if h.ty = ptLoad ∧ h.filesz ≠ 0 ∧ h.offset.toNat + h.filesz.toNat ≤ buffer.length then
    some (segmentOf buffer h)
  else none

theorem packHeader_dev {h : ProgramHeader} {b b' : Builder} (run : packHeader .dev file h b = some b') :
    b' = (segment? file h).toList.foldl Builder.addSegment b := by
  have pos : h.filesz.toNat > 0 ↔ h.filesz ≠ 0 := by
    rw [gt_iff_lt, Nat.pos_iff_ne_zero, ne_eq, ne_eq, ← BitVec.toNat_inj]
    rfl
  unfold packHeader at run
  split_ifs at run with load
  · obtain ⟨stop, added, run⟩ := Option.bind_eq_some_iff.mp run
    obtain ⟨rfl, -⟩ := Profile.add_dev added
    split_ifs at run with inside before
    · rw [segment?, if_pos ⟨load.1, pos.mp load.2, inside⟩]
      exact (Option.some.inj run).symm
    · rw [segment?, if_neg fun kept => inside kept.2.2]
      exact (Option.some.inj run).symm
  · rw [segment?, if_neg fun kept => load ⟨kept.1, pos.mpr kept.2.1⟩]
    exact (Option.some.inj run).symm

/-- The headers up to the first one that is not in the file. -/
def seenHeaders (file : List UInt8) (i count : Nat) : List ProgramHeader :=
  (((List.range' i count).map (headerOffset file)).takeWhile (· + 56 ≤ file.length)).map (readHeader file)

theorem seenHeaders_succ (i count : Nat) : seenHeaders file i (count + 1) =
    if headerOffset file i + 56 ≤ file.length then
      readHeader file (headerOffset file i) :: seenHeaders file (i + 1) count
    else [] := by
  rw [seenHeaders, List.range'_succ, List.map_cons, List.takeWhile_cons]
  split_ifs <;> simp_all [seenHeaders]

theorem packHeaders_dev {count i : Nat} {b b' : Builder} (run : packHeaders .dev file count i b = some b') :
    b' = ((seenHeaders file i count).filterMap (segment? file)).foldl Builder.addSegment b := by
  induction count generalizing i b with
  | zero => exact (Option.some.inj run).symm
  | succ count ih =>
    simp only [packHeaders, Option.bind_eq_bind, Option.bind_eq_some_iff] at run
    obtain ⟨offset, added, stop, ends, run⟩ := run
    obtain ⟨offset_eq, -⟩ := Profile.add_dev added
    obtain ⟨rfl, -⟩ := Profile.add_dev ends
    obtain rfl : offset = headerOffset file i := offset_eq
    rw [seenHeaders_succ]
    split_ifs at run with outside
    · rw [if_neg (Nat.not_le.mpr outside)]
      exact (Option.some.inj run).symm
    · obtain ⟨b₁, step, run⟩ := Option.bind_eq_some_iff.mp run
      rw [if_pos (Nat.not_lt.mp outside), ih run, packHeader_dev step, List.filterMap_cons]
      cases segment? file (readHeader file (headerOffset file i)) with
      | none => rfl
      | some g => rfl

theorem seenHeaders_eq (inside : HeadersInside file) :
    seenHeaders file 0 (phnum file) = programHeaders file := by
  have all : ((List.range (phnum file)).map (headerOffset file)).takeWhile (· + 56 ≤ file.length) =
      (List.range (phnum file)).map (headerOffset file) := by
    refine List.takeWhile_eq_self_iff.mpr fun offset mem => ?_
    obtain ⟨i, lt, rfl⟩ := List.mem_map.mp mem
    exact decide_eq_true (inside i (List.mem_range.mp lt))
  rw [seenHeaders, ← List.range_eq_range', all, List.map_map]
  rfl

theorem piece_segmentOf (h : ProgramHeader) : Segment.piece (segmentOf file h) = h.piece file := by
  have bits : (decide (ohlkFlags h.flags &&& 1 ≠ 0) = decide (h.flags &&& 4 ≠ 0)) ∧
      (decide (ohlkFlags h.flags &&& 2 ≠ 0) = decide (h.flags &&& 2 ≠ 0)) ∧
      decide (ohlkFlags h.flags &&& 4 ≠ 0) = decide (h.flags &&& 1 ≠ 0) := by
    unfold ohlkFlags
    split_ifs <;> simp_all
  unfold Segment.piece ProgramHeader.piece segmentOf
  simp only [bits]

/-- The parts that take memory, of those headers that the linker keeps. -/
theorem kept_pieces {hs : List ProgramHeader} (inside : ∀ h ∈ hs, h.ty = ptLoad → h.filesz ≠ 0 →
    h.offset.toNat + h.filesz.toNat ≤ file.length) :
    ((hs.filterMap (segment? file)).map Segment.piece).filter (·.memSize ≠ 0) =
      (((hs.filter (·.ty = ptLoad)).filter (·.memsz ≠ 0)).filter (·.filesz ≠ 0)).map (·.piece file) := by
  induction hs with
  | nil => rfl
  | cons h hs ih =>
    have ih := ih fun h' mem => inside h' (List.mem_cons_of_mem _ mem)
    have here := inside h List.mem_cons_self
    have no_bytes : h.filesz = 0 → segment? file h = none := fun bytes => if_neg fun kept => kept.2.1 bytes
    have dead : h.memsz = 0 → ¬decide ((h.piece file).memSize ≠ 0) = true := fun none yes => of_decide_eq_true yes none
    have alive : h.memsz ≠ 0 → decide ((h.piece file).memSize ≠ 0) = true := fun some => decide_eq_true some
    have other : h.ty ≠ ptLoad → segment? file h = none := fun load => if_neg fun kept => load kept.1
    by_cases load : h.ty = ptLoad
    · rw [List.filter_cons_of_pos (by simpa using load)]
      by_cases live : h.memsz = 0
      · rw [List.filter_cons_of_neg (by simpa using live), ← ih]
        by_cases bytes : h.filesz = 0
        · rw [List.filterMap_cons_none (no_bytes bytes)]
        · have kept : segment? file h = some (segmentOf file h) := if_pos ⟨load, bytes, here load bytes⟩
          rw [List.filterMap_cons_some kept, List.map_cons, piece_segmentOf,
            List.filter_cons_of_neg (by exact dead live)]
      · rw [List.filter_cons_of_pos (by simpa using live)]
        by_cases bytes : h.filesz = 0
        · rw [List.filterMap_cons_none (no_bytes bytes),
            List.filter_cons_of_neg (by simpa using bytes), ih]
        · have kept : segment? file h = some (segmentOf file h) := if_pos ⟨load, bytes, here load bytes⟩
          rw [List.filterMap_cons_some kept, List.map_cons, piece_segmentOf,
            List.filter_cons_of_pos (by exact alive live),
            List.filter_cons_of_pos (by simpa using bytes), List.map_cons, ih]
    · rw [List.filterMap_cons_none (other load),
        List.filter_cons_of_neg (by simpa using load), ih]

theorem isElf_iff (elf : IsElf64 file) : isElf file = true ↔ 64 < file.length := by
  have magic : file.take 4 = elfMagic := by
    have ident := congrArg (List.take 4) elf.ident
    rwa [List.take_take] at ident
  simp only [isElf, magic, and_true, gt_iff_lt, decide_eq_true_eq]

/-- The image of a file that is taken apart. -/
theorem link_elf (elf : isElf file = true) (run : link .dev entry file = some image) :
    (builderOf 1 1 0 (elfEntry file) ((seenHeaders file 0 (phnum file)).filterMap (segment? file))).build .dev =
      some image := by
  unfold link at run
  rw [if_pos elf] at run
  split_ifs at run
  obtain ⟨b, packed, run⟩ := Option.bind_eq_some_iff.mp run
  rwa [packHeaders_dev packed] at run

theorem seenHeaders_few : ((seenHeaders file 0 (phnum file)).filterMap (segment? file)).length < 65536 := by
  have filtered := List.length_filterMap_le (segment? file) (seenHeaders file 0 (phnum file))
  have taken := (List.takeWhile_sublist (· + 56 ≤ file.length)
    (l := (List.range' 0 (phnum file)).map (headerOffset file))).length_le
  rw [List.length_map, List.length_range'] at taken
  rw [seenHeaders, List.length_map] at filtered
  exact (filtered.trans taken).trans_lt (leField 16 file 56).isLt

/-- The image of a file that is taken as it is. -/
theorem link_raw (elf : isElf file = false) (run : link .dev entry file = some image) :
    (builderOf 1 1 0 entry [rawSegment file]).build .dev = some image := by
  have single : builderOf 1 1 0 entry [rawSegment file] =
      (Builder.new 1 1 0 entry).addSegment (rawSegment file) := rfl
  have other : ¬isElf file = true := by
    rw [elf]
    exact Bool.false_ne_true
  unfold link at run
  rw [if_neg other] at run
  split_ifs at run
  rw [single]
  exact run

/-- The image has one program only. -/
theorem HasPieces.unique {p : Parser} {ps qs : List Piece} (left : HasPieces p ps)
    (right : HasPieces p qs) : ps = qs := by
  refine List.ext_getElem (left.1.symm.trans right.1) fun i hi hi' => ?_
  have left := left.2 i ps[i] (List.getElem?_eq_getElem hi)
  have right := right.2 i qs[i] (List.getElem?_eq_getElem hi')
  exact Option.some.inj (left.symm.trans right)

/-- An image whose parts are known is compared with the file. -/
theorem preserves_iff {p : Parser} {pieces : List Piece} (accepted : Parser.new image = .ok p)
    (has : HasPieces p pieces) : Preserves file image ↔ HeadersInside file ∧ PayloadsInside file ∧
      p.header.entryPoint = elfEntry file ∧ pieces.filter (·.memSize ≠ 0) = livePieces file := by
  constructor
  · rintro ⟨headers, payloads, p', pieces', accepted', entry_eq, has', same⟩
    obtain rfl : p = p' := Except.ok.inj (accepted.symm.trans accepted')
    obtain rfl := has.unique has'
    exact ⟨headers, payloads, entry_eq, same⟩
  · rintro ⟨headers, payloads, entry_eq, same⟩
    exact ⟨headers, payloads, p, pieces, accepted, entry_eq, has, same⟩

/-- The parts with bytes in the file are all parts. -/
theorem livePieces_filesz : (((loads file).filter (·.memsz ≠ 0)).filter (·.filesz ≠ 0)).map (·.piece file) =
    livePieces file ↔ ∀ h ∈ loads file, h.memsz ≠ 0 → h.filesz ≠ 0 := by
  constructor
  · intro same h mem live
    have length := congrArg List.length same
    rw [livePieces, List.length_map, List.length_map] at length
    have all := List.filter_eq_self.mp (List.filter_sublist.eq_of_length length)
    simpa using all h (List.mem_filter.mpr ⟨mem, by simpa using live⟩)
  · intro bytes
    have all : ((loads file).filter (·.memsz ≠ 0)).filter (·.filesz ≠ 0) = (loads file).filter (·.memsz ≠ 0) := by
      rw [List.filter_eq_self]
      intro h mem
      obtain ⟨mem, live⟩ := List.mem_filter.mp mem
      simpa using bytes h mem (by simpa using live)
    rw [all]
    rfl

/-- What the linker makes of a file longer than its header. -/
theorem preserves_elf (elf : isElf file = true) (run : link .dev entry file = some image) :
    Preserves file image ↔ HeadersInside file ∧ PayloadsInside file ∧
      ∀ h ∈ loads file, h.memsz ≠ 0 → h.filesz ≠ 0 := by
  obtain ⟨p, accepted, entry_eq, has⟩ := build_pieces seenHeaders_few (link_elf elf run)
  rw [preserves_iff accepted has]
  refine and_congr_right fun headers => and_congr_right fun payloads => ?_
  have kept := kept_pieces fun h mem load bytes =>
    payloads h (List.mem_filter.mpr ⟨mem, decide_eq_true load⟩) bytes
  rw [seenHeaders_eq headers, kept, ← livePieces_filesz]
  exact and_iff_right entry_eq

/-- The linker preserves the program of a file that it converts exactly if the file is whole and every
part of the program has bytes in the file. -/
theorem link_preserves_iff (elf : IsElf64 file) (run : link .dev entry file = some image) :
    Preserves file image ↔ Convertible entry file := by
  by_cases long : 64 < file.length
  · rw [preserves_elf ((isElf_iff elf).mpr long) run]
    constructor
    · rintro ⟨headers, payloads, bytes⟩
      exact ⟨headers, payloads, .inl ⟨long, bytes⟩⟩
    · rintro ⟨headers, payloads, ⟨-, bytes⟩ | ⟨short, -⟩⟩
      · exact ⟨headers, payloads, bytes⟩
      · omega
  · have short : file.length = 64 := le_antisymm (Nat.not_lt.mp long) elf.long
    have raw : isElf file = false := by
      rw [← Bool.not_eq_true, isElf_iff elf]
      exact long
    obtain ⟨p, accepted, entry_eq, has⟩ := build_pieces (by simp : [rawSegment file].length < 65536) (link_raw raw run)
    have whole : ([rawSegment file].map Segment.piece).filter (·.memSize ≠ 0) =
        [⟨0, 64, file, true, true, true⟩] := by
      simp [rawSegment, Segment.piece, short]
    rw [preserves_iff accepted has, whole, entry_eq]
    constructor
    · rintro ⟨headers, payloads, entry_eq, same⟩
      exact ⟨headers, payloads, .inr ⟨short, entry_eq, same.symm⟩⟩
    · rintro ⟨headers, payloads, ⟨long', -⟩ | ⟨-, entry_eq, same⟩⟩
      · exact absurd long' long
      · exact ⟨headers, payloads, entry_eq, same.symm⟩

end Image

/-! ## Two files -/

/-- The header of a file with `phnum` program headers right behind it. -/
def elfHeader (phnum : BitVec 16) : List UInt8 :=
  elfMagic ++ [2, 1, 1] ++ List.replicate 9 0 ++ leBytes (2 : BitVec 16) ++ leBytes (183 : BitVec 16) ++
    leBytes (1 : BitVec 32) ++ leBytes (0x400000 : BitVec 64) ++ leBytes (64 : BitVec 64) ++
      leBytes (0 : BitVec 64) ++ leBytes (0 : BitVec 32) ++ leBytes (64 : BitVec 16) ++
        leBytes (56 : BitVec 16) ++ leBytes phnum ++ List.replicate 6 0

def loadHeader (flags : BitVec 32) (offset vaddr filesz memsz : BitVec 64) : List UInt8 :=
  leBytes ptLoad ++ leBytes flags ++ leBytes offset ++ leBytes vaddr ++ leBytes vaddr ++ leBytes filesz ++
    leBytes memsz ++ leBytes (4096 : BitVec 64)

/-- A program of four bytes of text. -/
def textFile : List UInt8 := elfHeader 1 ++ loadHeader 5 120 0x400000 4 4 ++ [0xC0, 0x03, 0x5F, 0xD6]

/-- The same with two pages of zeros behind the text. -/
def bssFile : List UInt8 :=
  elfHeader 2 ++ loadHeader 5 176 0x400000 4 4 ++ loadHeader 6 180 0x401000 0 8192 ++ [0xC0, 0x03, 0x5F, 0xD6]

theorem link_preserves_text : ∃ image, link .dev 0 textFile = some image ∧ Preserves textFile image := by
  have linked : (link .dev 0 textFile).isSome = true := by decide +kernel
  obtain ⟨image, run⟩ := Option.isSome_iff_exists.mp linked
  have whole : Convertible 0 textFile := by
    refine ⟨?_, ?_, .inl ⟨?_, ?_⟩⟩
    · unfold HeadersInside
      decide +kernel
    · unfold PayloadsInside
      decide +kernel
    · decide +kernel
    · decide +kernel
  exact ⟨image, run, (link_preserves_iff ⟨by decide +kernel, by decide +kernel⟩ run).mpr whole⟩

/-- The zeros are lost. -/
theorem bss_dropped : IsElf64 bssFile ∧ ∃ image, link .dev 0 bssFile = some image ∧
    ¬Preserves bssFile image := by
  have linked : (link .dev 0 bssFile).isSome = true := by decide +kernel
  obtain ⟨image, run⟩ := Option.isSome_iff_exists.mp linked
  refine ⟨⟨by decide +kernel, by decide +kernel⟩, image, run, fun preserves => ?_⟩
  have bytes := ((preserves_elf (by decide +kernel) run).mp preserves).2.2
  have lost : ∃ h ∈ loads bssFile, h.memsz ≠ 0 ∧ h.filesz = 0 := by decide +kernel
  obtain ⟨h, mem, live, empty⟩ := lost
  exact bytes h mem live empty

end CapsuleOS.Ohlink.Linker
