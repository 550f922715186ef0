import CapsuleOS.Rootfs.Lookup
import Mathlib.Data.List.DropRight

/-!
# The loader in user space

It reads the same directory through a VMO of the image, and takes the first entry whose path ends with the
name. `lookups_agree_iff` says for which files and names this is the entry with the name as its path or as
the last component of it, and the file that the kernel finds.
-/
namespace CapsuleOS.Rootfs

open Lib

/-! ## The loader -/

/-- The system call copies what there is behind the offset. -/
def vmoRead (vmo : List UInt8) (offset : Nat) (buf : List UInt8) : List UInt8 :=
  let copied := (vmo.drop offset).take buf.length
  copied ++ buf.drop copied.length

def resolveLoop (vmo : List UInt8) (filename : String) : Nat → Nat → List UInt8 → Except Status (Nat × Nat)
  | 0, _, _ => .error .notFound
  | count + 1, i, entryBytes =>
    let entryBytes := vmoRead vmo (16 + i * 144) entryBytes
    let entryPathLen := ((entryBytes.take 128).findIdx? (· = 0)).getD 128
    match fromUtf8 (entryBytes.take entryPathLen) with
    | none => .error .invalidImage
    | some entryStr =>
      if entryStr = filename ∨ utf8 filename <:+ utf8 entryStr then
        .ok ((leField 64 entryBytes 128).toNat, (leField 64 entryBytes 136).toNat)
      else resolveLoop vmo filename count (i + 1) entryBytes

def resolveFile (vmo : List UInt8) (filename : String) : Except Status (Nat × Nat) :=
  let superblock := vmoRead vmo 0 (List.replicate 16 0)
  if slice superblock 0 8 ≠ magic then .error .wrongType
  else
    let count := (leField 64 superblock 8).toNat
    if count = 0 ∨ count > 128 then .error .invalidImage
    else resolveLoop vmo filename count 0 (List.replicate 144 0)

/-! ## Names -/

/-- The path that the image has for a file. -/
def storedPath (e : FileEntry) : List UInt8 := (pathBytes e.path).takeWhile (· ≠ 0)

/-- What is behind the last slash. -/
def lastComponent (path : List UInt8) : List UInt8 := path.rtakeWhile (· ≠ 47)

/-- The name is the path or its last component. -/
def Matches (name : String) (e : FileEntry) : Prop :=
  storedPath e = utf8 name ∨ lastComponent (storedPath e) = utf8 name

instance (name : String) (e : FileEntry) : Decidable (Matches name e) := inferInstanceAs (Decidable (_ ∨ _))

/-- The offset and the size of the first file that matches. -/
def expected (name : String) : List FileEntry → Nat → Except Status (Nat × Nat)
  | [], _ => .error .notFound
  | e :: es, off => if Matches name e then .ok (off, e.data.length) else expected name es (nextOffset off e)

/-- The loader and the kernel over an image that starts the VMO agree: the loader finds the first file that
matches, and for the path of a file it gives the place of the bytes that the kernel gives. -/
structure Agree (files : List FileEntry) (vmo : List UInt8) (name : String) : Prop where
  found : resolveFile vmo name = expected name files (headSize + files.length * entrySize)
  kernel : ∀ e ∈ files, storedPath e = utf8 name → ∃ off size, resolveFile vmo name = .ok (off, size) ∧
    getFile (packRootfs files) name = some (some (slice (packRootfs files) off (off + size)))

/-- The loader goes no further than to this file. -/
def Stops (name : String) (e : FileEntry) : Prop :=
  fromUtf8 (storedPath e) = none ∨ utf8 name <:+ storedPath e

instance (name : String) (e : FileEntry) : Decidable (Stops name e) := inferInstanceAs (Decidable (_ ∨ _))

/-- An empty file that matches, with empty files before it. -/
def EmptyMatch (name : String) : List FileEntry → Prop
  | [] => False
  | e :: es => e.data = [] ∧ (Matches name e ∨ EmptyMatch name es)

/-- The file where the loader stops has a path that is a string, and it matches or is at the same place as the
first file that does. -/
def Clear (name : String) (e : FileEntry) (after : List FileEntry) : Prop :=
  fromUtf8 (storedPath e) ≠ none ∧ (Matches name e ∨ e.data = [] ∧ EmptyMatch name after)

/-- The directory has a size that the loader takes, the file where it stops is clear, and for the path of a
file that file has the bytes of the one that the kernel finds. -/
structure Unambiguous (files : List FileEntry) (name : String) : Prop where
  some_file : 0 < files.length
  few : files.length ≤ 128
  clear : ∀ e after, files.dropWhile (¬ Stops name ·) = e :: after → Clear name e after
  kernel : ∀ e after, files.dropWhile (¬ Stops name ·) = e :: after →
    (∃ g ∈ files, storedPath g = utf8 name) → ∀ f, files.find? (readBack ·.path = name) = some f →
      f.data = e.data

section Names

variable {name : String} {e : FileEntry} {es : List FileEntry} {off o s : Nat}

theorem zero_mem_pathBytes (path : String) : 0 ∈ pathBytes path := by
  apply List.mem_append_right
  rw [List.mem_replicate]
  exact ⟨by unfold maxPathLen; omega, rfl⟩

theorem readBack_eq (e : FileEntry) : readBack e.path = (fromUtf8 (storedPath e)).getD "" := by
  rw [readBack, take_actualLen (pathBytes_length e.path).le (zero_mem_pathBytes e.path), storedPath]

theorem Matches.suffix (h : Matches name e) : utf8 name <:+ storedPath e := by
  rcases h with whole | last
  · rw [whole]
  · rw [← last]
    exact List.rtakeWhile_suffix _ _

theorem Matches.stops (h : Matches name e) : Stops name e := .inr h.suffix

/-- What the loader does, told of the files. -/
def answer (name : String) : List FileEntry → Nat → Except Status (Nat × Nat)
  | [], _ => .error .notFound
  | e :: es, off =>
    if Stops name e then
      if fromUtf8 (storedPath e) = none then .error .invalidImage else .ok (off, e.data.length)
    else answer name es (nextOffset off e)

theorem expected_ne_invalid (es : List FileEntry) (off : Nat) : expected name es off ≠ .error .invalidImage := by
  induction es generalizing off with
  | nil => nofun
  | cons e es ih =>
    unfold expected
    split_ifs
    · nofun
    · exact ih _

theorem expected_le (h : expected name es off = .ok (o, s)) : off ≤ o := by
  induction es generalizing off with
  | nil => cases h
  | cons e es ih =>
    unfold expected at h
    split_ifs at h
    · cases h
      exact le_rfl
    · have later := ih h
      unfold nextOffset at later
      omega

/-- Offsets are multiples of 16. -/
theorem nextOffset_aligned (off : Nat) (e : FileEntry) : nextOffset off e % 16 = 0 := by
  unfold nextOffset padding
  omega

theorem nextOffset_eq_iff (aligned : off % 16 = 0) : nextOffset off e = off ↔ e.data = [] := by
  rw [← List.length_eq_zero_iff]
  unfold nextOffset padding
  omega

/-- Behind a file with data nothing is at its place. -/
theorem expected_moved (aligned : off % 16 = 0) (data : e.data ≠ []) :
    expected name es (nextOffset off e) ≠ .ok (off, s) := by
  intro here
  have later := expected_le here
  have moved : nextOffset off e ≠ off := fun same => data ((nextOffset_eq_iff aligned).mp same)
  unfold nextOffset at later moved
  omega

/-- The first match is here, and empty. -/
theorem expected_here (aligned : off % 16 = 0) : expected name es off = .ok (off, 0) ↔ EmptyMatch name es := by
  induction es with
  | nil => exact iff_of_false nofun id
  | cons e es ih =>
    unfold expected EmptyMatch
    split_ifs with matched
    · rw [Except.ok.injEq, Prod.mk.injEq, List.length_eq_zero_iff]
      simp [matched]
    · by_cases empty : e.data = []
      · rw [(nextOffset_eq_iff aligned).mpr empty, ih]
        simp [matched, empty]
      · exact iff_of_false (expected_moved aligned empty) fun h => empty h.1

/-- The loader is right exactly if the file where it stops is clear. -/
theorem answer_eq_iff (aligned : off % 16 = 0) : answer name es off = expected name es off ↔
    ∀ e after, es.dropWhile (¬ Stops name ·) = e :: after → Clear name e after := by
  induction es generalizing off with
  | nil => exact iff_of_true rfl nofun
  | cons e es ih =>
    by_cases stops : Stops name e
    · have front : (e :: es).dropWhile (¬ Stops name ·) = e :: es := by simp [stops]
      have here : (∀ e' after, (e :: es).dropWhile (¬ Stops name ·) = e' :: after → Clear name e' after) ↔
          Clear name e es := by
        rw [front]
        constructor
        · exact fun h => h e es rfl
        · rintro clear _ _ ⟨⟩
          exact clear
      rw [here, answer, if_pos stops]
      by_cases invalid : fromUtf8 (storedPath e) = none
      · rw [if_pos invalid]
        exact iff_of_false (expected_ne_invalid _ _).symm fun clear => clear.1 invalid
      · rw [if_neg invalid, expected, Clear]
        by_cases matched : Matches name e
        · rw [if_pos matched]
          exact iff_of_true rfl ⟨invalid, .inl matched⟩
        · rw [if_neg matched]
          by_cases empty : e.data = []
          · rw [(nextOffset_eq_iff aligned).mpr empty, empty, eq_comm]
            exact (expected_here aligned).trans (by simp [invalid, matched])
          · refine iff_of_false (expected_moved aligned empty).symm ?_
            rintro ⟨-, h | h⟩
            · exact matched h
            · exact empty h.1
    · have matched : ¬ Matches name e := fun h => stops h.stops
      have front : (e :: es).dropWhile (¬ Stops name ·) = es.dropWhile (¬ Stops name ·) := by simp [stops]
      rw [answer, if_neg stops, expected, if_neg matched, ih (nextOffset_aligned off e), front]

/-- Where the loader stops at a string, the place is that of the file. -/
theorem answer_of_clear {image : List UInt8} {pos : Nat} {after : List FileEntry} (dir : Dir image pos off es)
    (first : es.dropWhile (¬ Stops name ·) = e :: after) (valid : fromUtf8 (storedPath e) ≠ none) :
    ∃ o, answer name es off = .ok (o, e.data.length) ∧ slice image o (o + e.data.length) = e.data := by
  induction dir with
  | nil => cases first
  | @cons pos off e' es small room inside entry data rest ih =>
    by_cases stops : Stops name e'
    · have here : (e' :: es).dropWhile (¬ Stops name ·) = e' :: es := by simp [stops]
      cases here.symm.trans first
      exact ⟨off, by rw [answer, if_pos stops, if_neg valid], data⟩
    · have skip : (e' :: es).dropWhile (¬ Stops name ·) = es.dropWhile (¬ Stops name ·) := by simp [stops]
      rw [answer, if_neg stops]
      exact ih (skip.symm.trans first)

end Names

/-! ## The loader over a packed image -/

section Packed

variable {image tail buf : List UInt8} {name : String} {es files : List FileEntry} {pos off i : Nat}

theorem vmoRead_inside (inside : pos + buf.length ≤ image.length) :
    vmoRead (image ++ tail) pos buf = slice image pos (pos + buf.length) := by
  have copied : ((image ++ tail).drop pos).take buf.length = slice image pos (pos + buf.length) := by
    rw [slice, Nat.add_sub_cancel_left, List.drop_append_of_le_length (by omega),
      List.take_append_of_le_length (by rw [List.length_drop]; omega)]
  have length : (slice image pos (pos + buf.length)).length = buf.length := by
    rw [slice_length (Nat.le_add_right _ _) inside, Nat.add_sub_cancel_left]
  simp only [vmoRead, copied, length, List.drop_length, List.append_nil]

/-- An entry as it is written. -/
def entryBytes (e : FileEntry) (off : Nat) : List UInt8 := pathBytes e.path ++ (le64 off ++ le64 e.data.length)

theorem entryBytes_length (e : FileEntry) (off : Nat) : (entryBytes e off).length = 144 := by
  simp only [entryBytes, List.length_append, pathBytes_length, le64, leBytes_length]
  rfl

/-- The loader reads the path that is stored. -/
theorem entryBytes_path (e : FileEntry) (off : Nat) : (entryBytes e off).take
    ((((entryBytes e off).take 128).findIdx? (· = 0)).getD 128) = storedPath e := by
  have length : (pathBytes e.path).length = 128 := pathBytes_length e.path
  have front : (entryBytes e off).take 128 = pathBytes e.path := List.take_left' length
  have zero : ∃ b, b ∈ pathBytes e.path ∧ decide (b = 0) = true :=
    ⟨0, zero_mem_pathBytes e.path, decide_eq_true rfl⟩
  have found := List.findIdx?_eq_some_of_exists zero
  have before := List.findIdx_lt_length_of_exists zero
  rw [front, found, Option.getD_some, entryBytes, List.take_append_of_le_length before.le, storedPath,
    List.takeWhile_eq_take_findIdx_not]
  simp

theorem entryBytes_offset {e : FileEntry} (small : off < 2 ^ 64) :
    (leField 64 (entryBytes e off) 128).toNat = off := by
  have length : (pathBytes e.path).length = 128 := pathBytes_length e.path
  rw [entryBytes, leField_append length.le, length, le64, leField_leBytes (by norm_num), BitVec.toNat_ofNat,
    Nat.mod_eq_of_lt small]

theorem entryBytes_size {e : FileEntry} (small : e.data.length < 2 ^ 64) :
    (leField 64 (entryBytes e off) 136).toNat = e.data.length := by
  have length : (pathBytes e.path).length = 128 := pathBytes_length e.path
  rw [entryBytes, leField_append (by omega), length, le64, le64, leField_skip (by decide),
    ← List.append_nil (leBytes (BitVec.ofNat 64 e.data.length)), leField_leBytes (by norm_num),
    BitVec.toNat_ofNat, Nat.mod_eq_of_lt small]

/-- A string that ends with the name. -/
theorem suffix_iff {s : String} {stored : List UInt8} (read : fromUtf8 stored = some s) :
    s = name ∨ utf8 name <:+ utf8 s ↔ fromUtf8 stored = none ∨ utf8 name <:+ stored := by
  rw [utf8_of_fromUtf8 read, fromUtf8_utf8]
  constructor
  · rintro (rfl | suffix)
    · exact .inr List.suffix_rfl
    · exact .inr suffix
  · rintro (none_ | suffix)
    · cases none_
    · exact .inr suffix

theorem resolveLoop_dir (dir : Dir image pos off es) (at_ : 16 + i * 144 = pos) (size : buf.length = 144) :
    resolveLoop (image ++ tail) name es.length i buf = answer name es off := by
  induction dir generalizing i buf with
  | nil => rfl
  | @cons pos off e es small room inside entry data rest ih =>
    have read : vmoRead (image ++ tail) (16 + i * 144) buf = entryBytes e off := by
      rw [at_, vmoRead_inside (by rwa [size]), size]
      exact entry
    have next : 16 + (i + 1) * 144 = pos + entrySize := by
      unfold entrySize
      omega
    rw [List.length_cons, resolveLoop, answer, read]
    rw [entryBytes_path, entryBytes_offset (by omega), entryBytes_size (by omega),
      ih next (entryBytes_length e off)]
    cases valid : fromUtf8 (storedPath e) with
    | none => simp [Stops, valid]
    | some s =>
      simp only [suffix_iff valid, Stops]
      simp [valid]

theorem resolveFile_packed (fits : (packRootfs files).length < 2 ^ 64) :
    resolveFile (packRootfs files ++ tail) name = if files.length = 0 ∨ files.length > 128 then
      .error .invalidImage else answer name files (headSize + files.length * entrySize) := by
  obtain ⟨dir, length⟩ := packRootfs_dir fits
  obtain ⟨first, second⟩ := packRootfs_head files
  unfold headSize at length
  have superblock : vmoRead (packRootfs files ++ tail) 0 (List.replicate 16 0) =
      slice (packRootfs files) 0 16 := by
    rw [vmoRead_inside (by rw [List.length_replicate]; omega), List.length_replicate]
  have head : slice (slice (packRootfs files) 0 16) 0 8 = magic := by
    rw [slice_slice (by decide)]
    exact first
  have count : (leField 64 (slice (packRootfs files) 0 16) 8).toNat = files.length := by
    have few : files.length < 2 ^ 64 := by
      unfold entrySize at length
      omega
    refine le64_read few ?_
    rw [slice_slice (by decide)]
    exact second
  rw [resolveFile, superblock, if_neg (not_not.mpr head), count]
  by_cases size : files.length = 0 ∨ files.length > 128
  · exact (if_pos size).trans (if_pos size).symm
  · have run : resolveLoop (packRootfs files ++ tail) name files.length 0 (List.replicate 144 0) =
        answer name files (headSize + files.length * entrySize) :=
      resolveLoop_dir dir rfl (List.length_replicate ..)
    exact (if_neg size).trans (run.trans (if_neg size).symm)

/-- Aligned like every start of the data. -/
theorem start_aligned (n : Nat) : (headSize + n * entrySize) % 16 = 0 := by
  unfold headSize entrySize
  omega

theorem getFile_whole (fits : (packRootfs files).length < 2 ^ 64) (path : String) :
    getFile (packRootfs files) path = some ((files.find? (readBack ·.path = path)).map (·.data)) := by
  obtain ⟨dir, length⟩ := packRootfs_dir fits
  have all := getFile_readBack fits length le_rfl (dir.lastEnd_le ((Nat.le_add_right _ _).trans length)) path
  rwa [List.take_length] at all

theorem found_iff (fits : (packRootfs files).length < 2 ^ 64) :
    resolveFile (packRootfs files ++ tail) name = expected name files (headSize + files.length * entrySize) ↔
      0 < files.length ∧ files.length ≤ 128 ∧
        ∀ e after, files.dropWhile (¬ Stops name ·) = e :: after → Clear name e after := by
  rw [resolveFile_packed fits, ← answer_eq_iff (start_aligned files.length)]
  split_ifs with size
  · refine iff_of_false (expected_ne_invalid _ _).symm ?_
    rintro ⟨some_file, few, -⟩
    omega
  · constructor
    · exact fun found => ⟨by omega, by omega, found⟩
    · exact fun h => h.2.2

/-- For the path of a file, the kernel finds a file and the loader stops at one. -/
theorem kernel_iff (fits : (packRootfs files).length < 2 ^ 64) (some_file : 0 < files.length)
    (few : files.length ≤ 128)
    (clear : ∀ e after, files.dropWhile (¬ Stops name ·) = e :: after → Clear name e after) :
    (∀ g ∈ files, storedPath g = utf8 name → ∃ off size,
      resolveFile (packRootfs files ++ tail) name = .ok (off, size) ∧
        getFile (packRootfs files) name = some (some (slice (packRootfs files) off (off + size)))) ↔
    ∀ e after, files.dropWhile (¬ Stops name ·) = e :: after → (∃ g ∈ files, storedPath g = utf8 name) →
      ∀ f, files.find? (readBack ·.path = name) = some f → f.data = e.data := by
  obtain ⟨dir, -⟩ := packRootfs_dir fits
  have size : ¬(files.length = 0 ∨ files.length > 128) := by omega
  rw [resolveFile_packed fits, if_neg size, getFile_whole fits]
  -- for the path of a file both come to an end: the loader at the first stop, the kernel at the file itself
  have stop {g : FileEntry} (mem : g ∈ files) (path : storedPath g = utf8 name) :
      ∃ e after, files.dropWhile (¬ Stops name ·) = e :: after := by
    have stops : Stops name g := Matches.stops (.inl path)
    refine List.exists_cons_of_ne_nil fun nil => ?_
    have goesOn := List.dropWhile_eq_nil_iff.mp nil g mem
    exact absurd stops (of_decide_eq_true goesOn)
  have read {g : FileEntry} (mem : g ∈ files) (path : storedPath g = utf8 name) :
      ∃ f, files.find? (readBack ·.path = name) = some f := by
    rw [← Option.isSome_iff_exists, List.find?_isSome]
    refine ⟨g, mem, decide_eq_true ?_⟩
    rw [readBack_eq, path, fromUtf8_utf8, Option.getD_some]
  constructor
  · rintro same e after first ⟨g, mem, path⟩ f found
    obtain ⟨o, answered, bytes⟩ := answer_of_clear dir first (clear e after first).1
    obtain ⟨off, size, place, given⟩ := same g mem path
    rw [answered] at place
    cases place
    rw [found, bytes] at given
    exact Option.some.inj (Option.some.inj given)
  · intro same g mem path
    obtain ⟨e, after, first⟩ := stop mem path
    obtain ⟨f, found⟩ := read mem path
    obtain ⟨o, answered, bytes⟩ := answer_of_clear dir first (clear e after first).1
    refine ⟨o, e.data.length, answered, ?_⟩
    rw [found, bytes, Option.map_some, same e after first ⟨g, mem, path⟩ f found]

/-- The two lookups agree on a packed image exactly if the name is not ambiguous in it. -/
theorem lookups_agree_iff (files : List FileEntry) (tail : List UInt8) (name : String)
    (fits : (packRootfs files).length < 2 ^ 64) :
    Agree files (packRootfs files ++ tail) name ↔ Unambiguous files name := by
  constructor
  · rintro ⟨found, kernel⟩
    obtain ⟨some_file, few, clear⟩ := (found_iff fits).mp found
    exact ⟨some_file, few, clear, (kernel_iff fits some_file few clear).mp kernel⟩
  · rintro ⟨some_file, few, clear, kernel⟩
    exact ⟨(found_iff fits).mpr ⟨some_file, few, clear⟩, (kernel_iff fits some_file few clear).mpr kernel⟩

end Packed

def threeFiles : List FileEntry := [⟨"etc/motd", [72, 105]⟩, ⟨"bin/sh", [127, 69]⟩, ⟨"bin/bash", [127]⟩]

/-- A name that is the last component of the second path and ends the third one, with two bytes behind the image. -/
theorem lookups_agree_iff_three : Agree threeFiles (packRootfs threeFiles ++ [1, 2]) "sh" := by
  refine (lookups_agree_iff threeFiles [1, 2] "sh" (by decide +kernel)).mpr ?_
  have goesOn : ¬Stops "sh" ⟨"etc/motd", [72, 105]⟩ := by decide +kernel
  have stops : Stops "sh" ⟨"bin/sh", [127, 69]⟩ := by decide +kernel
  have first : threeFiles.dropWhile (¬ Stops "sh" ·) = [⟨"bin/sh", [127, 69]⟩, ⟨"bin/bash", [127]⟩] := by
    simp [threeFiles, goesOn, stops]
  refine ⟨by decide, by decide, fun e after found => ?_, fun e after _ whole => ?_⟩
  · cases first.symm.trans found
    exact ⟨by decide +kernel, .inl (by decide +kernel)⟩
  · have other : ∀ g ∈ threeFiles, storedPath g ≠ utf8 "sh" := by decide +kernel
    obtain ⟨g, mem, path⟩ := whole
    exact absurd path (other g mem)

/-- A name is found as the end of another one. -/
theorem suffix_found : ¬ ∀ (files : List FileEntry) (tail : List UInt8) (name : String),
    (packRootfs files).length < 2 ^ 64 → Agree files (packRootfs files ++ tail) name := by
  intro claim
  have found := (claim [⟨"bin/bash", [127]⟩] [] "sh" (by decide +kernel)).found
  have wrong : resolveFile (packRootfs [⟨"bin/bash", [127]⟩] ++ []) "sh" = .ok (160, 1) := by decide +kernel
  have right : expected "sh" [⟨"bin/bash", [127]⟩] (headSize + 1 * entrySize) = .error .notFound := by
    decide +kernel
  rw [wrong] at found
  cases found.trans right

end CapsuleOS.Rootfs
