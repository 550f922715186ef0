import CapsuleOS.Lib.Access
import CapsuleOS.Lib.Profile
import CapsuleOS.Ohlink.Crc32

/-!
# Headers and entries of an OHLINK image

The records as they are in a file: the header takes the first 64 bytes, an entry takes 60 bytes. Every
access of `from_bytes` is checked, so that a wrong range would show as a panic; there is none.
-/
namespace CapsuleOS.Ohlink

open Lib

inductive FormatError where
  | bufferTooSmall
  | invalidMagic
  | invalidVersion
  | checksumMismatch (expected calculated : BitVec 32)
  | invalidEntryIndex
  deriving DecidableEq, Repr

/-- A call that does not return a value returns an error or panics. -/
inductive Stop where
  | format (e : FormatError)
  | panic
  deriving DecidableEq

/-- The reserved bytes of the header. -/
abbrev Reserved := { bytes : List UInt8 // bytes.length = 18 }

structure Header where
  magic : BitVec 32
  versionMajor : BitVec 16
  versionMinor : BitVec 16
  endian : BitVec 8
  arch : BitVec 8
  fileType : BitVec 16
  headerCount : BitVec 16
  headerOffset : BitVec 32
  dataOffset : BitVec 32
  fileSize : BitVec 64
  checksum : BitVec 32
  flags : BitVec 32
  entryPoint : BitVec 64
  reserved : Reserved
  deriving DecidableEq

structure Entry where
  ty : BitVec 32
  flags : BitVec 32
  fileOffset : BitVec 64
  virtualAddress : BitVec 64
  fileSize : BitVec 64
  memSize : BitVec 64
  alignment : BitVec 64
  link : BitVec 32
  info : BitVec 32
  nameOffset : BitVec 32
  deriving DecidableEq

namespace Header

def magicValue : BitVec 32 := 0x4F484C4B
def size : Nat := 64
def defaultOffset : BitVec 32 := 0x40

def toBytes (h : Header) : List UInt8 :=
  leBytes h.magic ++ (leBytes h.versionMajor ++ (leBytes h.versionMinor ++ (leBytes h.endian ++
    (leBytes h.arch ++ (leBytes h.fileType ++ (leBytes h.headerCount ++ (leBytes h.headerOffset ++
      (leBytes h.dataOffset ++ (leBytes h.fileSize ++ (leBytes h.checksum ++ (leBytes h.flags ++
        (leBytes h.entryPoint ++ h.reserved.val))))))))))))

def fromBytes (bytes : List UInt8) : Except Stop Header :=
  if bytes.length < size then .error (.format .bufferTooSmall)
  else do
    let magic ← readField .panic 32 bytes 0
    if magic ≠ magicValue then .error (.format .invalidMagic)
    else
      let versionMajor ← readField .panic 16 bytes 4
      let versionMinor ← readField .panic 16 bytes 6
      if versionMajor ≠ 1 then .error (.format .invalidVersion)
      else
        let endian ← readField .panic 8 bytes 8
        let arch ← readField .panic 8 bytes 9
        let fileType ← readField .panic 16 bytes 10
        let headerCount ← readField .panic 16 bytes 12
        let headerOffset ← readField .panic 32 bytes 14
        let dataOffset ← readField .panic 32 bytes 18
        let fileSize ← readField .panic 64 bytes 22
        let checksum ← readField .panic 32 bytes 30
        let flags ← readField .panic 32 bytes 34
        let entryPoint ← readField .panic 64 bytes 38
        let tail ← readSlice .panic bytes 46 64
        let reserved ← copyFromSlice .panic 18 tail
        return { magic, versionMajor, versionMinor, endian, arch, fileType, headerCount, headerOffset,
                 dataOffset, fileSize, checksum, flags, entryPoint, reserved }

end Header

namespace Entry

def size : Nat := 60

def toBytes (e : Entry) : List UInt8 :=
  leBytes e.ty ++ (leBytes e.flags ++ (leBytes e.fileOffset ++ (leBytes e.virtualAddress ++
    (leBytes e.fileSize ++ (leBytes e.memSize ++ (leBytes e.alignment ++ (leBytes e.link ++
      (leBytes e.info ++ leBytes e.nameOffset))))))))

def fromBytes (bytes : List UInt8) : Except Stop Entry :=
  if bytes.length < size then .error (.format .bufferTooSmall)
  else do
    let ty ← readField .panic 32 bytes 0
    let flags ← readField .panic 32 bytes 4
    let fileOffset ← readField .panic 64 bytes 8
    let virtualAddress ← readField .panic 64 bytes 16
    let fileSize ← readField .panic 64 bytes 24
    let memSize ← readField .panic 64 bytes 32
    let alignment ← readField .panic 64 bytes 40
    let link ← readField .panic 32 bytes 48
    let info ← readField .panic 32 bytes 52
    let nameOffset ← readField .panic 32 bytes 56
    return { ty, flags, fileOffset, virtualAddress, fileSize, memSize, alignment, link, info, nameOffset }

end Entry

theorem ok_bind {ε α β : Type} (a : α) (f : α → Except ε β) : ((.ok a : Except ε α) >>= f) = f a := rfl

section Read

variable {bytes : List UInt8}

/-- What a header is read from. -/
theorem Header.fromBytes_eq (long : Header.size ≤ bytes.length) : Header.fromBytes bytes =
    if leField 32 bytes 0 ≠ magicValue then .error (.format .invalidMagic)
    else if leField 16 bytes 4 ≠ 1 then .error (.format .invalidVersion)
    else
      .ok
        { magic := leField 32 bytes 0
          versionMajor := leField 16 bytes 4
          versionMinor := leField 16 bytes 6
          endian := leField 8 bytes 8
          arch := leField 8 bytes 9
          fileType := leField 16 bytes 10
          headerCount := leField 16 bytes 12
          headerOffset := leField 32 bytes 14
          dataOffset := leField 32 bytes 18
          fileSize := leField 64 bytes 22
          checksum := leField 32 bytes 30
          flags := leField 32 bytes 34
          entryPoint := leField 64 bytes 38
          reserved := ⟨slice bytes 46 64, slice_length (by decide) long⟩ } := by
  have field : ∀ w off, off + w / 8 ≤ size → readField Stop.panic w bytes off = .ok (leField w bytes off) :=
    fun w off inside => readField_ok (inside.trans long)
  have tail : readSlice Stop.panic bytes 46 64 = .ok (slice bytes 46 64) := readSlice_ok (by decide) long
  have filled : copyFromSlice Stop.panic 18 (slice bytes 46 64) = .ok ⟨slice bytes 46 64, _⟩ :=
    copyFromSlice_ok (slice_length (by decide) long)
  unfold Header.fromBytes
  rw [if_neg (Nat.not_lt.mpr long)]
  simp (disch := decide) only [field, tail, filled, ok_bind]
  rfl

theorem Header.fromBytes_short (short : bytes.length < Header.size) :
    Header.fromBytes bytes = .error (.format .bufferTooSmall) := if_pos short

/-- What an entry is read from. -/
theorem Entry.fromBytes_eq (long : Entry.size ≤ bytes.length) : Entry.fromBytes bytes =
    .ok
      { ty := leField 32 bytes 0
        flags := leField 32 bytes 4
        fileOffset := leField 64 bytes 8
        virtualAddress := leField 64 bytes 16
        fileSize := leField 64 bytes 24
        memSize := leField 64 bytes 32
        alignment := leField 64 bytes 40
        link := leField 32 bytes 48
        info := leField 32 bytes 52
        nameOffset := leField 32 bytes 56 } := by
  have field : ∀ w off, off + w / 8 ≤ size → readField Stop.panic w bytes off = .ok (leField w bytes off) :=
    fun w off inside => readField_ok (inside.trans long)
  unfold Entry.fromBytes
  rw [if_neg (Nat.not_lt.mpr long)]
  simp (disch := decide) only [field, ok_bind]
  rfl

/-- No access is out of range. -/
theorem Header.fromBytes_ne_panic (bytes : List UInt8) : Header.fromBytes bytes ≠ .error .panic := by
  by_cases long : Header.size ≤ bytes.length
  · rw [Header.fromBytes_eq long]
    split_ifs <;> simp
  · rw [Header.fromBytes_short (Nat.not_le.mp long)]
    simp

end Read

@[simp] theorem Header.toBytes_length (h : Header) : h.toBytes.length = Header.size := by
  simp only [Header.toBytes, List.length_append, leBytes_length, h.reserved.property, Header.size]

@[simp] theorem Entry.toBytes_length (e : Entry) : e.toBytes.length = Entry.size := by
  simp only [Entry.toBytes, List.length_append, leBytes_length, Entry.size]

/-- A header is read back, whatever follows it. -/
theorem Header.fromBytes_toBytes {h : Header} (magic : h.magic = magicValue) (version : h.versionMajor = 1)
    (rest : List UInt8) : Header.fromBytes (h.toBytes ++ rest) = .ok h := by
  have long : Header.size ≤ (h.toBytes ++ rest).length := by
    rw [List.length_append, toBytes_length]
    exact Nat.le_add_right _ _
  have reserved : slice (h.toBytes ++ rest) 46 64 = h.reserved.val := by
    simp (disch := decide) only [toBytes, List.append_assoc, slice_skip, Nat.reduceDiv, Nat.reduceSub]
    exact slice_front h.reserved.property
  rw [fromBytes_eq long]
  simp only [reserved]
  simp (disch := decide) only [toBytes, List.append_assoc, leField_skip, leField_leBytes, Nat.reduceDiv,
    Nat.reduceSub, magic, version, ne_eq, not_true_eq_false, if_false]
  rw [← magic, ← version]

theorem Entry.fromBytes_toBytes (e : Entry) : Entry.fromBytes e.toBytes = .ok e := by
  have tail : e.toBytes = e.toBytes ++ [] := (List.append_nil _).symm
  rw [fromBytes_eq e.toBytes_length.ge, tail]
  simp (disch := decide) only [toBytes, List.append_assoc, leField_skip, leField_leBytes, Nat.reduceDiv,
    Nat.reduceSub]

end CapsuleOS.Ohlink
