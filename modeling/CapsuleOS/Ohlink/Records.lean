import CapsuleOS.Ohlink.Parser

/-!
# The four records and their codecs

Headers and entries come back from their bytes and their bytes from them. The bytes of a relocation are
written without its reserved tail. A symbol reserves 21 bytes in memory and 3 in the file; copying the three
into the 21 panics, so that no symbol is ever read.
-/
namespace CapsuleOS.Ohlink

open Lib

structure Symbol where
  nameOffset : BitVec 64
  value : BitVec 64
  size : BitVec 64
  ty : BitVec 8
  binding : BitVec 8
  visibility : BitVec 8
  sectionIdx : BitVec 16
  reserved : { bytes : List UInt8 // bytes.length = 21 }
  deriving DecidableEq

structure Reloc where
  offset : BitVec 64
  ty : BitVec 32
  symbolIdx : BitVec 32
  bitSize : BitVec 8
  reserved8 : BitVec 8
  reserved16 : BitVec 16
  addend : BitVec 64
  reserved : { bytes : List UInt8 // bytes.length = 4 }
  deriving DecidableEq

/-! ## Symbols and relocations -/

namespace Symbol

def recordSize : Nat := 32

/-- The last three bytes of the buffer stay zero. -/
def toBytes (s : Symbol) : List UInt8 :=
  leBytes s.nameOffset ++ (leBytes s.value ++ (leBytes s.size ++ (leBytes s.ty ++ (leBytes s.binding ++
    (leBytes s.visibility ++ (leBytes s.sectionIdx ++ List.replicate 3 0))))))

def fromBytes (bytes : List UInt8) : Except Stop Symbol :=
  if bytes.length < recordSize then .error (.format .bufferTooSmall)
  else do
    let nameOffset ← readField .panic 64 bytes 0
    let value ← readField .panic 64 bytes 8
    let size ← readField .panic 64 bytes 16
    let ty ← readField .panic 8 bytes 24
    let binding ← readField .panic 8 bytes 25
    let visibility ← readField .panic 8 bytes 26
    let sectionIdx ← readField .panic 16 bytes 27
    let tail ← readSlice .panic bytes 29 32
    let reserved ← copyFromSlice .panic 21 tail
    return { nameOffset, value, size, ty, binding, visibility, sectionIdx, reserved }

end Symbol

namespace Reloc

def recordSize : Nat := 32

/-- The reserved tail is not written; the last four bytes of the buffer stay zero. -/
def toBytes (r : Reloc) : List UInt8 :=
  leBytes r.offset ++ (leBytes r.ty ++ (leBytes r.symbolIdx ++ (leBytes r.bitSize ++ (leBytes r.reserved8 ++
    (leBytes r.reserved16 ++ (leBytes r.addend ++ List.replicate 4 0))))))

def fromBytes (bytes : List UInt8) : Except Stop Reloc :=
  if bytes.length < recordSize then .error (.format .bufferTooSmall)
  else do
    let offset ← readField .panic 64 bytes 0
    let ty ← readField .panic 32 bytes 8
    let symbolIdx ← readField .panic 32 bytes 12
    let bitSize ← readField .panic 8 bytes 16
    let reserved8 ← readField .panic 8 bytes 17
    let reserved16 ← readField .panic 16 bytes 18
    let addend ← readField .panic 64 bytes 20
    let tail ← readSlice .panic bytes 28 32
    let reserved ← copyFromSlice .panic 4 tail
    return { offset, ty, symbolIdx, bitSize, reserved8, reserved16, addend, reserved }

end Reloc

/-! ## One record after the other -/

section Codecs

variable {bytes : List UInt8}

@[simp] theorem Symbol.toBytes_length (s : Symbol) : s.toBytes.length = Symbol.recordSize := by
  simp only [Symbol.toBytes, List.length_append, leBytes_length, List.length_replicate, Symbol.recordSize]

@[simp] theorem Reloc.toBytes_length (r : Reloc) : r.toBytes.length = Reloc.recordSize := by
  simp only [Reloc.toBytes, List.length_append, leBytes_length, List.length_replicate, Reloc.recordSize]

theorem Header.toBytes_fromBytes {h : Header} (size : bytes.length = Header.size)
    (read : Header.fromBytes bytes = .ok h) : h.toBytes = bytes := by
  have field : ∀ w off, 8 * (w / 8) = w → off + w / 8 ≤ bytes.length →
      leBytes (leField w bytes off) = slice bytes off (off + w / 8) := fun _ _ => leBytes_leField
  have long : Header.size ≤ bytes.length := size.ge
  rw [Header.fromBytes_eq long] at read
  rw [size, Header.size] at field
  split_ifs at read
  obtain rfl := Except.ok.inj read
  unfold Header.toBytes
  simp (disch := decide) only [field, Nat.reduceAdd, Nat.reduceDiv, slice_join]
  exact slice_whole size

theorem Entry.toBytes_fromBytes {e : Entry} (size : bytes.length = Entry.size)
    (read : Entry.fromBytes bytes = .ok e) : e.toBytes = bytes := by
  have field : ∀ w off, 8 * (w / 8) = w → off + w / 8 ≤ bytes.length →
      leBytes (leField w bytes off) = slice bytes off (off + w / 8) := fun _ _ => leBytes_leField
  rw [Entry.fromBytes_eq size.ge] at read
  rw [size, Entry.size] at field
  obtain rfl := Except.ok.inj read
  unfold Entry.toBytes
  simp (disch := decide) only [field, Nat.reduceAdd, Nat.reduceDiv, slice_join]
  exact slice_whole size

/-- Three bytes do not fill an array of 21. -/
theorem Symbol.fromBytes_panics (long : Symbol.recordSize ≤ bytes.length) :
    Symbol.fromBytes bytes = .error .panic := by
  have field : ∀ w off, off + w / 8 ≤ recordSize →
      readField Stop.panic w bytes off = .ok (leField w bytes off) :=
    fun w off inside => readField_ok (inside.trans long)
  have tail : readSlice Stop.panic bytes 29 32 = .ok (slice bytes 29 32) := readSlice_ok (by decide) long
  have length : (slice bytes 29 32).length = 3 := slice_length (by decide) long
  have filled : copyFromSlice Stop.panic 21 (slice bytes 29 32) = .error .panic :=
    copyFromSlice_panic (by rw [length]; decide)
  unfold Symbol.fromBytes
  rw [if_neg (Nat.not_lt.mpr long)]
  simp (disch := decide) only [field, tail, filled, ok_bind]
  rfl

/-- What a relocation is read from. -/
theorem Reloc.fromBytes_eq (long : Reloc.recordSize ≤ bytes.length) :
    Reloc.fromBytes bytes = .ok
      { offset := leField 64 bytes 0
        ty := leField 32 bytes 8
        symbolIdx := leField 32 bytes 12
        bitSize := leField 8 bytes 16
        reserved8 := leField 8 bytes 17
        reserved16 := leField 16 bytes 18
        addend := leField 64 bytes 20
        reserved := ⟨slice bytes 28 32, slice_length (by decide) long⟩ } := by
  have field : ∀ w off, off + w / 8 ≤ recordSize →
      readField Stop.panic w bytes off = .ok (leField w bytes off) :=
    fun w off inside => readField_ok (inside.trans long)
  have tail : readSlice Stop.panic bytes 28 32 = .ok (slice bytes 28 32) := readSlice_ok (by decide) long
  have filled : copyFromSlice Stop.panic 4 (slice bytes 28 32) = .ok ⟨slice bytes 28 32, _⟩ :=
    copyFromSlice_ok (slice_length (by decide) long)
  unfold Reloc.fromBytes
  rw [if_neg (Nat.not_lt.mpr long)]
  simp (disch := decide) only [field, tail, filled, ok_bind]
  rfl

def Reloc.cleared (r : Reloc) : Reloc := { r with reserved := ⟨List.replicate 4 0, rfl⟩ }

/-- A relocation comes back without its reserved tail. -/
theorem Reloc.fromBytes_toBytes (r : Reloc) : Reloc.fromBytes r.toBytes = .ok r.cleared := by
  have tail : slice r.toBytes 28 32 = List.replicate 4 0 := by
    simp (disch := decide) only [toBytes, slice_skip, Nat.reduceDiv, Nat.reduceSub]
    rfl
  rw [fromBytes_eq r.toBytes_length.ge]
  simp only [tail]
  simp (disch := decide) only [toBytes, leField_skip, leField_leBytes, Nat.reduceDiv, Nat.reduceSub]
  rfl

theorem Reloc.toBytes_fromBytes {r : Reloc} (size : bytes.length = Reloc.recordSize)
    (read : Reloc.fromBytes bytes = .ok r) : r.toBytes = slice bytes 0 28 ++ List.replicate 4 0 := by
  have field : ∀ w off, 8 * (w / 8) = w → off + w / 8 ≤ bytes.length →
      leBytes (leField w bytes off) = slice bytes off (off + w / 8) := fun _ _ => leBytes_leField
  have join : ∀ {a b c}, a ≤ b → b ≤ c → ∀ rest : List UInt8,
      slice bytes a b ++ (slice bytes b c ++ rest) = slice bytes a c ++ rest := by
    intro a b c lo hi rest
    rw [← List.append_assoc, slice_join lo hi]
  rw [fromBytes_eq size.ge] at read
  rw [size, Reloc.recordSize] at field
  obtain rfl := Except.ok.inj read
  unfold Reloc.toBytes
  simp (disch := decide) only [field, Nat.reduceAdd, Nat.reduceDiv, join]

end Codecs

/-! ## The four codecs -/

inductive RecordKind where
  | header
  | entry
  | symbol
  | reloc
  deriving DecidableEq

inductive Record where
  | header (h : Header)
  | entry (e : Entry)
  | symbol (s : Symbol)
  | reloc (r : Reloc)

namespace RecordKind

def size : RecordKind → Nat
  | .header => Header.size
  | .entry => Entry.size
  | .symbol => Symbol.recordSize
  | .reloc => Reloc.recordSize

def fromBytes (bytes : List UInt8) : RecordKind → Except Stop Record
  | .header => Record.header <$> Header.fromBytes bytes
  | .entry => Record.entry <$> Entry.fromBytes bytes
  | .symbol => Record.symbol <$> Symbol.fromBytes bytes
  | .reloc => Record.reloc <$> Reloc.fromBytes bytes

end RecordKind

namespace Record

def kind : Record → RecordKind
  | .header _ => .header
  | .entry _ => .entry
  | .symbol _ => .symbol
  | .reloc _ => .reloc

def toBytes : Record → List UInt8
  | .header h => h.toBytes
  | .entry e => e.toBytes
  | .symbol s => s.toBytes
  | .reloc r => r.toBytes

/-- A header has the right magic and major version. -/
def Proper : Record → Prop
  | .header h => h.magic = Header.magicValue ∧ h.versionMajor = 1
  | _ => True

def ComesBack (x : Record) : Prop := x.kind.fromBytes x.toBytes = .ok x

/-- The record is no symbol, and the reserved tail of a relocation is zero. -/
def Carried : Record → Prop
  | .symbol _ => False
  | .reloc r => r.reserved.val = List.replicate 4 0
  | _ => True

end Record

namespace RecordKind

/-- Bytes that are read as a record are what the record is written as. -/
def WritesBack (bytes : List UInt8) (k : RecordKind) : Prop :=
  ∀ x, k.fromBytes bytes = .ok x → x.toBytes = bytes

/-- The reserved tail of a relocation is zero. -/
def TailClear (bytes : List UInt8) : RecordKind → Prop
  | .reloc => slice bytes 28 32 = List.replicate 4 0
  | _ => True

end RecordKind

section Codecs

variable {bytes : List UInt8}

theorem map_ok {ε α β : Type} {f : α → β} {m : Except ε α} {b : β} (h : f <$> m = .ok b) :
    ∃ a, m = .ok a ∧ f a = b := by
  cases m with
  | error e => cases h
  | ok a => exact ⟨a, rfl, Except.ok.inj h⟩

theorem Record.comesBack_iff (x : Record) (proper : x.Proper) : x.ComesBack ↔ x.Carried := by
  unfold ComesBack
  cases x with
  | header h =>
    have read := Header.fromBytes_toBytes proper.1 proper.2 []
    rw [List.append_nil] at read
    simp only [Carried, iff_true]
    change Record.header <$> Header.fromBytes h.toBytes = _
    rw [read]
    rfl
  | entry e =>
    simp only [Carried, iff_true]
    change Record.entry <$> Entry.fromBytes e.toBytes = _
    rw [Entry.fromBytes_toBytes]
    rfl
  | symbol s =>
    change Record.symbol <$> Symbol.fromBytes s.toBytes = _ ↔ False
    rw [Symbol.fromBytes_panics s.toBytes_length.ge]
    simp only [iff_false]
    exact fun eq => nomatch eq
  | reloc r =>
    change Record.reloc <$> Reloc.fromBytes r.toBytes = _ ↔ _
    rw [Reloc.fromBytes_toBytes]
    constructor
    · intro eq
      have same : r.cleared = r := Record.reloc.inj (Except.ok.inj eq)
      exact (congrArg (·.reserved.val) same).symm
    · intro zero
      have tail : r.reserved = ⟨List.replicate 4 0, rfl⟩ := Subtype.ext zero
      have same : r.cleared = r := by
        unfold Reloc.cleared
        rw [← tail]
      change Except.ok (Record.reloc r.cleared) = _
      rw [same]

theorem RecordKind.writesBack_iff (k : RecordKind) (size : bytes.length = k.size) :
    k.WritesBack bytes ↔ k.TailClear bytes := by
  unfold WritesBack
  cases k with
  | header =>
    simp only [TailClear, iff_true]
    intro x read
    obtain ⟨h, stored, rfl⟩ := map_ok read
    exact Header.toBytes_fromBytes size stored
  | entry =>
    simp only [TailClear, iff_true]
    intro x read
    obtain ⟨e, stored, rfl⟩ := map_ok read
    exact Entry.toBytes_fromBytes size stored
  | symbol =>
    simp only [TailClear, iff_true]
    intro x read
    obtain ⟨s, stored, rfl⟩ := map_ok read
    rw [Symbol.fromBytes_panics size.ge] at stored
    cases stored
  | reloc =>
    have long : Reloc.recordSize ≤ bytes.length := size.ge
    have whole : slice bytes 0 28 ++ slice bytes 28 32 = bytes := by
      rw [slice_join (by decide) (by decide)]
      exact slice_whole size
    have read := Reloc.fromBytes_eq long
    have written := Reloc.toBytes_fromBytes size read
    constructor
    · intro back
      have same := back (.reloc _) (congrArg (Record.reloc <$> ·) read)
      have split := written.symm.trans (same.trans whole.symm)
      exact (List.append_cancel_left split).symm
    · intro clear x eq
      obtain ⟨r, checked, rfl⟩ := map_ok eq
      have tail : slice bytes 28 32 = List.replicate 4 0 := clear
      change r.toBytes = bytes
      rw [Reloc.toBytes_fromBytes size checked, ← tail, whole]

/-- Which records come back from their bytes, and which bytes from their record. -/
theorem codecs_inverse_iff (x : Record) (k : RecordKind) (bytes : List UInt8) :
    (x.Proper → (x.ComesBack ↔ x.Carried)) ∧
    (bytes.length = k.size → (k.WritesBack bytes ↔ k.TailClear bytes)) :=
  ⟨x.comesBack_iff, k.writesBack_iff⟩

def zeroSymbol : Symbol := ⟨0, 0, 0, 0, 0, 0, 0, ⟨List.replicate 21 0, rfl⟩⟩

def markedReloc : Reloc := ⟨0, 1, 0, 64, 0, 0, 0, ⟨[1, 0, 0, 0], rfl⟩⟩

def markedBytes : List UInt8 := List.replicate 28 0 ++ [1, 0, 0, 0]

theorem codecs_inverse_iff_marked : ¬(Record.reloc markedReloc).ComesBack ∧
    ¬RecordKind.reloc.WritesBack markedBytes ∧ (Record.reloc markedReloc.cleared).ComesBack := by
  have lost : markedReloc.reserved.val ≠ List.replicate 4 0 := by decide
  have kept : slice markedBytes 28 32 ≠ List.replicate 4 0 := by decide
  obtain ⟨record, binary⟩ := codecs_inverse_iff (.reloc markedReloc) .reloc markedBytes
  obtain ⟨cleared, -⟩ := codecs_inverse_iff (.reloc markedReloc.cleared) .reloc markedBytes
  exact ⟨fun back => lost ((record trivial).mp back), fun back => kept ((binary rfl).mp back),
    (cleared trivial).mpr rfl⟩

/-- Reading a symbol back panics, and a relocation comes back changed. -/
theorem symbol_never_read : Symbol.fromBytes zeroSymbol.toBytes = .error .panic ∧
    Reloc.fromBytes markedReloc.toBytes = .ok markedReloc.cleared ∧ markedReloc.cleared ≠ markedReloc ∧
    ¬((∀ x : Record, x.Proper → x.ComesBack) ∧
      ∀ (k : RecordKind) (bytes : List UInt8), bytes.length = k.size → k.WritesBack bytes) :=
  ⟨Symbol.fromBytes_panics (Symbol.toBytes_length _).ge, Reloc.fromBytes_toBytes _, by decide,
    fun claim => (Record.comesBack_iff (.symbol zeroSymbol) trivial).mp (claim.1 _ trivial)⟩

end Codecs

end CapsuleOS.Ohlink
