import CapsuleOS.Rootfs.Image

/-!
# The three programs agree

`Dir` says that an image has the entries and the data of a list of files. The packer writes such images,
the bootloader's size keeps all of it, and the kernel finds the files in it.
-/
namespace CapsuleOS.Rootfs

open Lib

/-! ## Paths -/

/-- A path that the packer writes as it is. -/
structure Plain (path : String) : Prop where
  noZero : 0 ∉ utf8 path
  noBackslash : 92 ∉ utf8 path
  short : (utf8 path).length ≤ 127

section Paths

variable {path : String}

theorem Plain.normalized (h : Plain path) : normalized path = utf8 path := by
  have kept : ∀ b ∈ utf8 path, (if b = 92 then 47 else b) = b := by
    intro b mem
    have other : b ≠ 92 := ne_of_mem_of_not_mem mem h.noBackslash
    rw [if_neg other]
  exact (List.map_congr_left kept).trans (List.map_id _)

@[simp] theorem pathBytes_length (path : String) : (pathBytes path).length = maxPathLen := by
  unfold pathBytes maxPathLen
  rw [List.length_append, List.length_take, List.length_replicate]
  omega

theorem Plain.pathBytes (h : Plain path) : ∃ k, Rootfs.pathBytes path = utf8 path ++ 0 :: List.replicate k 0 := by
  have short := h.short
  refine ⟨maxPathLen - 1 - (utf8 path).length, ?_⟩
  have zeros : maxPathLen - min (utf8 path).length (maxPathLen - 1) =
      maxPathLen - 1 - (utf8 path).length + 1 := by
    unfold maxPathLen
    omega
  have whole : (utf8 path).take (maxPathLen - 1) = utf8 path := List.take_of_length_le short
  rw [Rootfs.pathBytes, h.normalized, zeros, List.replicate_succ, whole]

/-- The path as the kernel reads it from its entry. -/
def readBack (path : String) : String :=
  (fromUtf8 ((Rootfs.pathBytes path).take (actualLen (Rootfs.pathBytes path)))).getD ""

/-- The kernel reads the path that was written. -/
theorem Plain.read (h : Plain path) : readBack path = path := by
  obtain ⟨k, bytes⟩ := h.pathBytes
  have found : actualLen (Rootfs.pathBytes path) = (utf8 path).length := by
    have none_before : (utf8 path).findIdx? (· = 0) = none := by
      rw [List.findIdx?_eq_none_iff]
      intro b mem
      exact decide_eq_false fun eq => h.noZero (eq ▸ mem)
    rw [actualLen, List.take_of_length_le (pathBytes_length path).le, bytes, List.findIdx?_append, none_before]
    simp [List.findIdx?_cons]
  rw [readBack, found, bytes, List.take_left, fromUtf8_utf8, Option.getD_some]

theorem find?_readBack {es : List FileEntry} (plain : ∀ e ∈ es, Plain e.path) (path : String) :
    es.find? (readBack ·.path = path) = es.find? (·.path = path) := by
  apply List.find?_congr
  intro e mem
  rw [(plain e mem).read]

end Paths

/-! ## Directories -/

/-- Where the data behind a file starts. -/
def nextOffset (off : Nat) (e : FileEntry) : Nat := off + e.data.length + padding (off + e.data.length)

/-- The image has the entries of the files from `pos` on and their data from `off` on. -/
inductive Dir (image : List UInt8) : Nat → Nat → List FileEntry → Prop where
  | nil (pos off : Nat) : Dir image pos off []
  | cons {pos off : Nat} {e : FileEntry} {es : List FileEntry} (small : off + e.data.length < 2 ^ 64)
      (room : pos + entrySize ≤ image.length) (inside : off + e.data.length ≤ image.length)
      (entry : slice image pos (pos + entrySize) = pathBytes e.path ++ (le64 off ++ le64 e.data.length))
      (data : slice image off (off + e.data.length) = e.data)
      (rest : Dir image (pos + entrySize) (nextOffset off e) es) : Dir image pos off (e :: es)

/-- The largest end of a file. -/
def lastEnd : List FileEntry → Nat → Nat → Nat
  | [], _, maxEnd => maxEnd
  | e :: es, off, maxEnd => lastEnd es (nextOffset off e) (max maxEnd (off + e.data.length))

theorem le_lastEnd (es : List FileEntry) (off maxEnd : Nat) : maxEnd ≤ lastEnd es off maxEnd := by
  induction es generalizing off maxEnd with
  | nil => exact le_rfl
  | cons e es ih => exact (le_max_left _ _).trans (ih _ _)

theorem off_le_lastEnd {es : List FileEntry} (some_file : es ≠ []) (off maxEnd : Nat) :
    off ≤ lastEnd es off maxEnd := by
  cases es with
  | nil => exact absurd rfl some_file
  | cons e es => exact (Nat.le_add_right off _).trans ((le_max_right _ _).trans (le_lastEnd es _ _))

section Dir

variable {image : List UInt8} {pos off : Nat} {es : List FileEntry}

theorem Dir.lastEnd_le (h : Dir image pos off es) {maxEnd : Nat} (bound : maxEnd ≤ image.length) :
    lastEnd es off maxEnd ≤ image.length := by
  induction h generalizing maxEnd with
  | nil => exact bound
  | cons small room inside entry data rest ih => exact ih (max_le bound inside)

/-- A part of the image that reaches behind every entry and every file is enough. -/
theorem Dir.take (h : Dir image pos off es) {n maxEnd : Nat} (table : pos + es.length * entrySize ≤ n)
    (ends : lastEnd es off maxEnd ≤ n) : Dir (image.take n) pos off es := by
  induction h generalizing maxEnd with
  | nil pos off => exact .nil pos off
  | @cons pos off e es small room inside entry data rest ih =>
    rw [List.length_cons, Nat.succ_mul] at table
    have later := le_lastEnd es (nextOffset off e) (max maxEnd (off + e.data.length))
    have reached : off + e.data.length ≤ n := (le_max_right _ _).trans (later.trans ends)
    refine .cons small ?_ ?_ ?_ ?_ (ih (by omega) ends)
    · rw [List.length_take]
      omega
    · rw [List.length_take]
      omega
    · rw [slice_take (by omega)]
      exact entry
    · rw [slice_take reached]
      exact data

/-- Every file is in the image, below the last end. -/
theorem Dir.file_inside (h : Dir image pos off es) (maxEnd : Nat) : ∀ e ∈ es, ∃ start,
    start + e.data.length ≤ lastEnd es off maxEnd ∧ slice image start (start + e.data.length) = e.data := by
  induction h generalizing maxEnd with
  | nil => simp
  | @cons pos off e es small room inside entry data rest ih =>
    intro e' mem
    rcases List.mem_cons.mp mem with rfl | mem
    · exact ⟨off, (le_max_right _ _).trans (le_lastEnd es _ _), data⟩
    · exact ih _ e' mem

theorem le64_read {n : Nat} (small : n < 2 ^ 64) (here : slice image pos (pos + 8) = le64 n) :
    (leField 64 image pos).toNat = n := by
  have whole : 8 * (64 / 8) = 64 := by norm_num
  rw [leField_of_slice whole here, BitVec.toNat_ofNat, Nat.mod_eq_of_lt small]

/-- The fields of an entry. -/
theorem entry_fields {e : FileEntry}
    (entry : slice image pos (pos + entrySize) = pathBytes e.path ++ (le64 off ++ le64 e.data.length)) :
    slice image pos (pos + maxPathLen) = pathBytes e.path ∧
      slice image (pos + maxPathLen) (pos + maxPathLen + 8) = le64 off ∧
        slice image (pos + maxPathLen + 8) (pos + maxPathLen + 16) = le64 e.data.length := by
  have part {a b : Nat} (h : b ≤ entrySize) : slice image (pos + a) (pos + b) =
      slice (pathBytes e.path ++ (le64 off ++ le64 e.data.length)) a b := by
    rw [← entry, slice_slice (Nat.add_le_add_left h pos)]
  have tail : slice (le64 off ++ le64 e.data.length) 8 16 = le64 e.data.length :=
    (slice_skip (by decide)).trans (slice_whole (leBytes_length _))
  refine ⟨?_, ?_, ?_⟩
  · exact (part (a := 0) (b := maxPathLen) (by decide)).trans (slice_front (pathBytes_length e.path))
  · refine (part (a := maxPathLen) (b := maxPathLen + 8) (by decide)).trans ?_
    rw [slice_append (pathBytes_length e.path).le, pathBytes_length, Nat.sub_self, Nat.add_sub_cancel_left]
    exact slice_front (leBytes_length _)
  · refine (part (a := maxPathLen + 8) (b := maxPathLen + 16) (by decide)).trans ?_
    rw [slice_append (by rw [pathBytes_length]; exact Nat.le_add_right _ _), pathBytes_length,
      Nat.add_sub_cancel_left, Nat.add_sub_cancel_left]
    exact tail

/-- The kernel goes through the entries and finds the first file whose path it reads as this one. -/
theorem Dir.getLoop (h : Dir image pos off es) (path : String) :
    unchecked (getLoopChecked image path es.length pos) =
      some ((es.find? (readBack ·.path = path)).map (·.data)) := by
  induction h with
  | nil => rfl
  | @cons pos off e es small room inside entry data rest ih =>
    obtain ⟨bytes, offset, size⟩ := entry_fields entry
    have offset := le64_read (by omega) offset
    have size := le64_read (by omega) size
    have path_read : pathAt image pos = readBack e.path := by
      rw [pathAt, bytes]
      rfl
    rw [List.length_cons, getLoopChecked_round room, path_read, offset, size, wadd_eq small]
    simp only [inside, and_true, List.find?_cons]
    by_cases here : readBack e.path = path
    · rw [if_pos here, readPart_ok (Nat.le_add_right _ _) inside, decide_eq_true here]
      exact congrArg (fun bytes => some (some bytes)) data
    · rw [if_neg here, decide_eq_false here]
      exact ih

/-- The bootloader goes through the entries and keeps the largest end. -/
theorem Dir.scanLoop {m : Mem} {base : Nat} (h : Dir image pos off es)
    (loaded : m.load base image.length = image) {i maxEnd : Nat} (at_ : headSize + i * entrySize = pos) :
    Rootfs.scanLoop m base es.length i maxEnd = lastEnd es off maxEnd := by
  induction h generalizing i maxEnd with
  | nil => rfl
  | @cons pos off e es small room inside entry data rest ih =>
    obtain ⟨_, offset, size⟩ := entry_fields entry
    have word {start : Nat} (within : start + 8 ≤ image.length) :
        m.load64 (base + start) = (leField 64 image start).toNat := by
      rw [load64_eq_leField within, loaded]
    unfold entrySize at room
    have offset : m.load64 (base + (headSize + i * entrySize + maxPathLen)) = off := by
      rw [at_, word (by unfold maxPathLen; omega), le64_read (by omega) offset]
    have size : m.load64 (base + (headSize + i * entrySize + maxPathLen) + 8) = e.data.length := by
      rw [at_, Nat.add_assoc base, word (by unfold maxPathLen; omega), le64_read (by omega) size]
    have next : headSize + (i + 1) * entrySize = pos + entrySize := by
      rw [Nat.succ_mul, ← Nat.add_assoc, at_]
    rw [List.length_cons, Rootfs.scanLoop]
    simp only [offset, size, wadd_eq small]
    have larger : (if off + e.data.length > maxEnd then off + e.data.length else maxEnd) =
        max maxEnd (off + e.data.length) := by
      split_ifs <;> omega
    rw [larger]
    exact ih next

end Dir

/-! ## The packer's image -/

theorem packEntries_length (files : List FileEntry) (off : Nat) :
    (packEntries files off).1.length = files.length * entrySize := by
  induction files generalizing off with
  | nil => simp [packEntries]
  | cons e es ih =>
    simp only [packEntries, List.length_append, pathBytes_length, le64, leBytes_length, ih, List.length_cons,
      Nat.succ_mul, maxPathLen, entrySize]
    omega

/-- Entries and data land where the entries say. -/
theorem packEntries_dir {files : List FileEntry} {off : Nat} {pre mid image : List UInt8}
    (eq : pre ++ (packEntries files off).1 ++ mid ++ (packEntries files off).2 = image)
    (at_ : (pre ++ (packEntries files off).1 ++ mid).length = off) (fits : image.length < 2 ^ 64) :
    Dir image pre.length off files := by
  induction files generalizing off pre mid with
  | nil => exact .nil _ _
  | cons e es ih =>
    have total := congrArg List.length eq
    rw [List.length_append, at_] at total
    simp only [packEntries, List.length_append, List.length_replicate] at total
    have small : off + e.data.length < 2 ^ 64 := by omega
    rw [wadd_eq small] at total
    have small' : off + e.data.length + padding (off + e.data.length) < 2 ^ 64 := by omega
    rw [wadd_eq small'] at total
    simp only [packEntries, wadd_eq small, wadd_eq small'] at eq at_
    have entry_length : (pathBytes e.path ++ (le64 off ++ le64 e.data.length)).length = entrySize := by
      simp only [List.length_append, pathBytes_length, le64, leBytes_length]
      rfl
    generalize rest_eq : packEntries es (off + e.data.length + padding (off + e.data.length)) = rest
      at eq at_ total
    generalize entry_eq : pathBytes e.path ++ (le64 off ++ le64 e.data.length) = entry at entry_length
    have split : pathBytes e.path ++ (le64 off ++ (le64 e.data.length ++ rest.1)) = entry ++ rest.1 := by
      rw [← entry_eq]
      simp only [List.append_assoc]
    rw [split] at eq at_
    -- the same image, cut behind the first entry and behind the padding of its data
    have eq' : (pre ++ entry) ++ rest.1 ++ (mid ++ (e.data ++ List.replicate
        (padding (off + e.data.length)) 0)) ++ rest.2 = image := by
      rw [← eq]
      simp only [List.append_assoc]
    have at_' : ((pre ++ entry) ++ rest.1 ++ (mid ++ (e.data ++ List.replicate
        (padding (off + e.data.length)) (0 : UInt8)))).length = nextOffset off e := by
      rw [nextOffset, ← at_]
      simp only [List.length_append, List.length_replicate]
      omega
    have later := @ih (nextOffset off e) _ _ (by rw [nextOffset, rest_eq]; exact eq')
      (by rw [nextOffset, rest_eq]; exact at_')
    rw [List.length_append, entry_length] at later
    have pre_length : pre.length + entrySize + rest.1.length + mid.length = off := by
      rw [← at_]
      simp only [List.length_append, entry_length]
      omega
    refine .cons small (by omega) (by omega) ?_ ?_ later
    · have cut : image = pre ++ (entry ++ (rest.1 ++ mid ++ (e.data ++ List.replicate
          (padding (off + e.data.length)) 0 ++ rest.2))) := by
        rw [← eq]
        simp only [List.append_assoc]
      rw [entry_eq, cut, slice_append le_rfl, Nat.sub_self, Nat.add_sub_cancel_left]
      exact slice_front entry_length
    · have cut : image = (pre ++ (entry ++ rest.1) ++ mid) ++ (e.data ++ (List.replicate
          (padding (off + e.data.length)) 0 ++ rest.2)) := by
        rw [← eq]
        simp only [List.append_assoc]
      rw [cut, slice_append at_.le, at_, Nat.sub_self, Nat.add_sub_cancel_left]
      exact slice_front rfl

theorem packRootfs_dir {files : List FileEntry} (fits : (packRootfs files).length < 2 ^ 64) :
    Dir (packRootfs files) headSize (headSize + files.length * entrySize) files ∧
      headSize + files.length * entrySize ≤ (packRootfs files).length := by
  have head_length : (magic ++ le64 files.length).length = headSize := by
    rw [List.length_append, le64, leBytes_length]
    rfl
  have length : headSize + files.length * entrySize ≤ (packRootfs files).length := by
    simp only [packRootfs, List.length_append, packEntries_length, le64, leBytes_length, headSize]
    have magic_length : magic.length = 8 := rfl
    omega
  have small : files.length * entrySize % 2 ^ 64 = files.length * entrySize := Nat.mod_eq_of_lt (by omega)
  have start : wadd headSize (files.length * entrySize) = headSize + files.length * entrySize :=
    wadd_eq (by omega)
  have table := packEntries_length files (headSize + files.length * entrySize)
  have dir : Dir (packRootfs files) (magic ++ le64 files.length).length
      (headSize + files.length * entrySize) files := by
    refine @packEntries_dir _ _ _ [] _ ?_ ?_ fits
    · rw [packRootfs, small, start]
      simp only [List.append_assoc, List.append_nil]
    · rw [List.append_nil, List.length_append, head_length, table]
  rw [head_length] at dir
  exact ⟨dir, length⟩

/-- What both readers look at first. -/
theorem packRootfs_head (files : List FileEntry) : slice (packRootfs files) 0 8 = magic ∧
    slice (packRootfs files) 8 16 = le64 files.length := by
  constructor
  · simp only [packRootfs, List.append_assoc]
    exact slice_front rfl
  · simp only [packRootfs, List.append_assoc]
    rw [slice_append (by decide)]
    exact slice_front (leBytes_length _)

section Agreement

variable {files : List FileEntry} {m : Mem} {base : Nat}

theorem bootfsSize_packed (fits : (packRootfs files).length < 2 ^ 64)
    (loaded : m.load base (packRootfs files).length = packRootfs files) :
    bootfsSize m base = lastEnd files (headSize + files.length * entrySize) headSize := by
  obtain ⟨dir, length⟩ := packRootfs_dir fits
  obtain ⟨first, second⟩ := packRootfs_head files
  have wide : 16 ≤ (packRootfs files).length := (Nat.le_add_right _ _).trans length
  have first : m.load base 8 = magic := by
    rw [← first, ← loaded, slice_load (Nat.zero_le _) (by omega), Nat.add_zero, Nat.sub_zero]
  have count : m.load64 (base + 8) = files.length := by
    have few : files.length < 2 ^ 64 := by
      unfold entrySize headSize at length
      omega
    rw [load64_eq_leField (by omega : 8 + 8 ≤ (packRootfs files).length), loaded]
    exact le64_read few second
  rw [bootfsSize, if_pos first, count]
  exact dir.scanLoop loaded (by omega)

/-- The kernel on a part of the image that has the directory and every file. -/
theorem getFile_readBack (fits : (packRootfs files).length < 2 ^ 64) {n : Nat}
    (table : headSize + files.length * entrySize ≤ n) (inside : n ≤ (packRootfs files).length)
    (ends : lastEnd files (headSize + files.length * entrySize) headSize ≤ n) (path : String) :
    getFile ((packRootfs files).take n) path = some ((files.find? (readBack ·.path = path)).map (·.data)) := by
  obtain ⟨dir, length⟩ := packRootfs_dir fits
  obtain ⟨first, second⟩ := packRootfs_head files
  unfold headSize at table
  have cut : ((packRootfs files).take n).length = n := by
    rw [List.length_take]
    omega
  have first : slice ((packRootfs files).take n) 0 8 = magic := (slice_take (by omega)).trans first
  have count : (leField 64 ((packRootfs files).take n) 8).toNat = files.length := by
    have few : files.length < 2 ^ 64 := by
      unfold entrySize at table
      omega
    exact le64_read few ((slice_take (by omega)).trans second)
  have long : headSize ≤ ((packRootfs files).take n).length := by
    unfold headSize
    omega
  rw [getFile, getFileChecked_headed long first, count]
  exact (dir.take table ends).getLoop path

theorem getFile_packed (fits : (packRootfs files).length < 2 ^ 64) (plain : ∀ e ∈ files, Plain e.path) {n : Nat}
    (table : headSize + files.length * entrySize ≤ n) (inside : n ≤ (packRootfs files).length)
    (ends : lastEnd files (headSize + files.length * entrySize) headSize ≤ n) (path : String) :
    getFile ((packRootfs files).take n) path = some ((files.find? (·.path = path)).map (·.data)) := by
  rw [getFile_readBack fits table inside ends, find?_readBack plain]

/-- Packer, bootloader and kernel agree: the size that the bootloader computes covers the directory and
every file, and over that many bytes the kernel finds the packed files and no others. -/
theorem rootfs_agreement (plain : ∀ e ∈ files, Plain e.path) (distinct : (files.map (·.path)).Nodup)
    (inMemory : base + (packRootfs files).length < 2 ^ 64)
    (loaded : m.load base (packRootfs files).length = packRootfs files) :
    headSize + files.length * entrySize ≤ bootfsSize m base ∧
      (∀ e ∈ files, ∃ start, start + e.data.length ≤ bootfsSize m base ∧
        slice (packRootfs files) start (start + e.data.length) = e.data) ∧
      (∀ e ∈ files, getFile (m.load base (bootfsSize m base)) e.path = some (some e.data)) ∧
      ∀ path, path ∉ files.map (·.path) → getFile (m.load base (bootfsSize m base)) path = some none := by
  have fits : (packRootfs files).length < 2 ^ 64 := (Nat.le_add_left _ _).trans_lt inMemory
  obtain ⟨dir, length⟩ := packRootfs_dir fits
  have size := bootfsSize_packed fits loaded
  have table : headSize + files.length * entrySize ≤ bootfsSize m base := by
    rw [size]
    by_cases none : files = []
    · subst none
      exact le_lastEnd [] _ _
    · exact off_le_lastEnd none _ _
  have inside : bootfsSize m base ≤ (packRootfs files).length := by
    rw [size]
    exact dir.lastEnd_le ((Nat.le_add_right _ _).trans length)
  have part : m.load base (bootfsSize m base) = (packRootfs files).take (bootfsSize m base) := by
    conv_rhs => rw [← loaded]
    exact (load_take inside).symm
  have found := getFile_packed fits plain table inside size.ge
  refine ⟨table, ?_, fun e mem => ?_, fun path missing => ?_⟩
  · rw [size]
    exact dir.file_inside headSize
  · have here : files.find? (·.path = e.path) = some e := by
      obtain ⟨e', eq⟩ : ∃ e', files.find? (·.path = e.path) = some e' := by
        rw [← Option.isSome_iff_exists, List.find?_isSome]
        exact ⟨e, mem, decide_eq_true rfl⟩
      have same : e'.path = e.path := by simpa using List.find?_some eq
      rw [eq, List.inj_on_of_nodup_map distinct (List.mem_of_find?_eq_some eq) mem same]
    rw [part, found, here, Option.map_some]
  · have nowhere : files.find? (·.path = path) = none := by
      rw [List.find?_eq_none]
      intro e mem eq
      exact missing (List.mem_map.mpr ⟨e, mem, of_decide_eq_true eq⟩)
    rw [part, found, nowhere, Option.map_none]

/-- An image with an empty file, at 0x40000000. -/
theorem rootfs_agreement_two : ∃ m : Mem, getFile (m.load 0x40000000 (bootfsSize m 0x40000000)) "etc/motd" =
    some (some []) ∧ getFile (m.load 0x40000000 (bootfsSize m 0x40000000)) "init" = some none := by
  let files : List FileEntry := [⟨"bin/sh", [127, 69, 76, 70]⟩, ⟨"etc/motd", []⟩]
  have plain : ∀ e ∈ files, Plain e.path := by
    have sh : Plain "bin/sh" := ⟨by decide +kernel, by decide +kernel, by decide +kernel⟩
    have motd : Plain "etc/motd" := ⟨by decide +kernel, by decide +kernel, by decide +kernel⟩
    simp [files, sh, motd]
  have distinct : (files.map (·.path)).Nodup := by decide
  have length : (packRootfs files).length = 320 := by decide +kernel
  have agree := rootfs_agreement plain distinct (by rw [length]; decide)
    (Mem.load_store_same (fun _ => 0) 0x40000000 (packRootfs files))
  exact ⟨_, agree.2.2.1 ⟨"etc/motd", []⟩ (by simp [files]), agree.2.2.2 "init" (by decide)⟩

end Agreement

end CapsuleOS.Rootfs
