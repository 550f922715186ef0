import CapsuleOS.Lib.Access
import CapsuleOS.Shared.Status

/-!
# The image of the root file system

Three programs know the format: the packer writes it, the bootloader scans it for its size, and the
kernel looks files up in it. After the magic bytes and the number of files there is an entry of 144 bytes
for every file, and then the data of the files, each padded to a multiple of 16 bytes.
-/
namespace CapsuleOS.Rootfs

open Lib

def magic : List UInt8 := [72, 78, 88, 70, 95, 86, 70, 83]
def maxPathLen : Nat := 128
def entrySize : Nat := 144
def headSize : Nat := 16

/-- The bytes of a string. -/
def utf8 (s : String) : List UInt8 := s.toByteArray.data.toList

def fromUtf8 (bytes : List UInt8) : Option String := String.fromUTF8? ⟨bytes.toArray⟩

theorem fromUtf8_utf8 (s : String) : fromUtf8 (utf8 s) = some s := by
  have bytes : (⟨(utf8 s).toArray⟩ : ByteArray) = s.toByteArray := rfl
  rw [fromUtf8, bytes, String.fromUTF8?, dif_pos s.isValidUTF8]
  rfl

theorem utf8_of_fromUtf8 {bytes : List UInt8} {s : String} (h : fromUtf8 bytes = some s) : bytes = utf8 s := by
  unfold fromUtf8 String.fromUTF8? at h
  split_ifs at h
  cases h
  rfl

/-! ## The packer -/

structure FileEntry where
  path : String
  data : List UInt8

/-- The bytes of the path with slashes for backslashes, which are single bytes in every string. -/
def normalized (path : String) : List UInt8 := (utf8 path).map fun b => if b = 92 then 47 else b

/-- The path, cut off at 127 bytes, and zeros. -/
def pathBytes (path : String) : List UInt8 :=
  (normalized path).take (maxPathLen - 1) ++
    List.replicate (maxPathLen - min (normalized path).length (maxPathLen - 1)) 0

def le64 (n : Nat) : List UInt8 := leBytes (BitVec.ofNat 64 n)

def padding (offset : Nat) : Nat := (16 - offset % 16) % 16

/-- The entries, and the data with the padding. -/
def packEntries : List FileEntry → Nat → List UInt8 × List UInt8
  | [], _ => ([], [])
  | e :: es, current =>
    let stop := wadd current e.data.length
    let (entries, datas) := packEntries es (wadd stop (padding stop))
    (pathBytes e.path ++ (le64 current ++ (le64 e.data.length ++ entries)),
      e.data ++ List.replicate (padding stop) 0 ++ datas)

def packRootfs (files : List FileEntry) : List UInt8 :=
  let (entries, datas) := packEntries files (wadd headSize (files.length * entrySize % 2 ^ 64))
  magic ++ le64 files.length ++ entries ++ datas

/-! ## The bootloader -/

def scanLoop (m : Mem) (base : Nat) : Nat → Nat → Nat → Nat
  | 0, _, maxEnd => maxEnd
  | count + 1, i, maxEnd =>
    let pathEnd := headSize + i * entrySize + maxPathLen
    let stop := wadd (m.load64 (base + pathEnd)) (m.load64 (base + pathEnd + 8))
    scanLoop m base count (i + 1) (if stop > maxEnd then stop else maxEnd)

/-- The size of the image at `base`. -/
def bootfsSize (m : Mem) (base : Nat) : Nat :=
  if m.load base 8 = magic then scanLoop m base (m.load64 (base + 8)) 0 headSize else 0

/-! ## The kernel -/

/-- The length of the path, and 0 if there is no zero byte. -/
def actualLen (bytes : List UInt8) : Nat := ((bytes.take maxPathLen).findIdx? (· = 0)).getD 0

inductive Panic where
  | outOfRange

/-- The loop that looks for the end of the path, from its byte `i` on. -/
def terminatorLoop (image : List UInt8) (pathStart : Nat) : Nat → Nat → Except Panic Nat
  | 0, _ => .ok 0
  | rounds + 1, i => do
    let byte ← readByte .outOfRange image (pathStart + i)
    if byte = 0 then return i else terminatorLoop image pathStart rounds (i + 1)

def readNumber (image : List UInt8) (start : Nat) : Except Panic Nat := do
  let bytes ← readSlice .outOfRange image start (start + 8)
  let array ← copyFromSlice .outOfRange 8 bytes
  return Mem.ofBytes array.1

def getLoopChecked (image : List UInt8) (path : String) : Nat → Nat → Except Panic (Option (Part image))
  | 0, _ => .ok none
  | count + 1, current =>
    if current + entrySize > image.length then .ok none
    else do
      let pathEnd := current + maxPathLen
      let actualLen ← terminatorLoop image current maxPathLen 0
      let bytes ← readSlice .outOfRange image current (current + actualLen)
      let filePath := (fromUtf8 bytes).getD ""
      let fileOffset ← readNumber image pathEnd
      let fileSize ← readNumber image (pathEnd + 8)
      if filePath = path ∧ wadd fileOffset fileSize ≤ image.length then
        let file ← readPart .outOfRange image fileOffset (wadd fileOffset fileSize)
        return some file
      else getLoopChecked image path count (current + entrySize)

def getFileChecked (image : List UInt8) (path : String) : Except Panic (Option (Part image)) :=
  if image.length < headSize then .ok none
  else do
    let head ← readSlice .outOfRange image 0 8
    if head ≠ magic then return none
    else
      let count ← readNumber image 8
      getLoopChecked image path count headSize

/-- A result without the checks: a panic is none. -/
def unchecked {image : List UInt8} (result : Except Panic (Option (Part image))) : Option (Option (List UInt8)) :=
  match result with
  | .ok file => some (file.map Part.items)
  | .error _ => none

/-- The bytes of the file. -/
def getFile (image : List UInt8) (path : String) : Option (Option (List UInt8)) :=
  unchecked (getFileChecked image path)

/-! ## The accesses of the kernel -/

theorem actualLen_le (bytes : List UInt8) : actualLen bytes ≤ maxPathLen := by
  unfold actualLen
  cases found : (bytes.take maxPathLen).findIdx? (· = 0) with
  | none => exact Nat.zero_le _
  | some n =>
    have lt := (List.findIdx?_eq_some_iff_getElem.mp found).1
    exact (lt.le.trans (List.length_take_le _ _) :)

section Loop

variable {image : List UInt8} {path : String} {pos i : Nat}

theorem terminatorLoop_ok {rounds : Nat} (inside : pos + i + rounds ≤ image.length) :
    terminatorLoop image pos rounds i =
      .ok (((slice image (pos + i) (pos + i + rounds)).findIdx? (· = 0)).elim 0 (· + i)) := by
  induction rounds generalizing i with
  | zero => simp [terminatorLoop, slice]
  | succ rounds ih =>
    have next := ih (i := i + 1) (by omega)
    rw [terminatorLoop, readByte_ok (by omega), slice_cons (by omega) inside, List.findIdx?_cons]
    by_cases zero : image[pos + i] = 0
    · simp [zero, bind, Except.bind, pure, Except.pure]
    · simp only [zero, bind, Except.bind, if_false, decide_false, Bool.false_eq_true, next]
      rw [← Nat.add_assoc pos i 1, Nat.add_right_comm (pos + i) 1 rounds, ← Nat.add_assoc (pos + i) rounds 1,
        Option.elim_map]
      simp only [Function.comp_def, Nat.add_comm, Nat.add_left_comm]

theorem readNumber_ok (inside : pos + 8 ≤ image.length) :
    readNumber image pos = .ok (leField 64 image pos).toNat := by
  have length : (slice image pos (pos + 8)).length = 8 := by
    rw [slice_length (Nat.le_add_right _ _) inside, Nat.add_sub_cancel_left]
  have small : Mem.ofBytes (slice image pos (pos + 8)) < 2 ^ 64 := by
    have bound := Mem.ofBytes_lt (slice image pos (pos + 8))
    rwa [length] at bound
  have number : (leField 64 image pos).toNat = Mem.ofBytes (slice image pos (pos + 8)) := by
    rw [leField, BitVec.toNat_ofNat, slice, Nat.add_sub_cancel_left]
    rw [slice, Nat.add_sub_cancel_left] at small
    exact Nat.mod_eq_of_lt small
  rw [readNumber, readSlice_ok (Nat.le_add_right _ _) inside]
  change (copyFromSlice Panic.outOfRange 8 _ >>= fun array => pure (Mem.ofBytes array.1)) = _
  rw [copyFromSlice_ok length, number]
  rfl

theorem take_slice {n len : Nat} (few : n ≤ len) :
    (slice image pos (pos + len)).take n = slice image pos (pos + n) := by
  rw [slice, slice, Nat.add_sub_cancel_left, Nat.add_sub_cancel_left, List.take_take, Nat.min_eq_left few]

/-- The path as it is read from an entry. -/
def pathAt (image : List UInt8) (pos : Nat) : String :=
  let bytes := slice image pos (pos + maxPathLen)
  (fromUtf8 (bytes.take (actualLen bytes))).getD ""

/-- A round of the loop over the entries. What it reads of the directory is in range. -/
theorem getLoopChecked_round (inside : pos + entrySize ≤ image.length) (count : Nat) :
    let fileOffset := (leField 64 image (pos + maxPathLen)).toNat
    let stop := wadd fileOffset (leField 64 image (pos + maxPathLen + 8)).toNat
    getLoopChecked image path (count + 1) pos =
      if pathAt image pos = path ∧ stop ≤ image.length then do
        let file ← readPart .outOfRange image fileOffset stop
        return some file
      else getLoopChecked image path count (pos + entrySize) := by
  unfold entrySize at inside
  have short : (slice image pos (pos + maxPathLen)).length = maxPathLen := by
    rw [slice_length (Nat.le_add_right _ _) (by unfold maxPathLen; omega), Nat.add_sub_cancel_left]
  have scan : terminatorLoop image pos maxPathLen 0 = .ok (actualLen (slice image pos (pos + maxPathLen))) := by
    have room : pos + 0 + maxPathLen ≤ image.length := by
      unfold maxPathLen
      omega
    have found := terminatorLoop_ok room
    rw [Nat.add_zero] at found
    rw [found, actualLen, List.take_of_length_le short.le]
    cases (slice image pos (pos + maxPathLen)).findIdx? (· = 0) <;> rfl
  have few := actualLen_le (slice image pos (pos + maxPathLen))
  have bytes : readSlice Panic.outOfRange image pos (pos + actualLen (slice image pos (pos + maxPathLen))) =
      .ok ((slice image pos (pos + maxPathLen)).take (actualLen (slice image pos (pos + maxPathLen)))) := by
    rw [take_slice few]
    have size : maxPathLen = 128 := rfl
    exact readSlice_ok (Nat.le_add_right _ _) (by omega)
  have offset : readNumber image (pos + maxPathLen) = .ok (leField 64 image (pos + maxPathLen)).toNat :=
    readNumber_ok (by unfold maxPathLen; omega)
  have size : readNumber image (pos + maxPathLen + 8) = .ok (leField 64 image (pos + maxPathLen + 8)).toNat :=
    readNumber_ok (by unfold maxPathLen; omega)
  rw [getLoopChecked, if_neg (by unfold entrySize; omega)]
  simp only [scan, bytes, offset, size, bind, Except.bind, pathAt]
  rfl

theorem getFileChecked_headed (long : headSize ≤ image.length) (same : slice image 0 8 = magic) :
    getFileChecked image path = getLoopChecked image path (leField 64 image 8).toNat headSize := by
  rw [getFileChecked, if_neg (Nat.not_lt.mpr long)]
  unfold headSize at long
  rw [readSlice_ok (by decide) (by omega)]
  change (if slice image 0 8 ≠ magic then _ else _) = _
  rw [if_neg (not_not.mpr same), readNumber_ok (by omega)]
  rfl

end Loop

end CapsuleOS.Rootfs
