import CapsuleOS.Rootfs.Agreement

/-!
# Which images the kernel survives

`get_file` on arbitrary bytes. What it reads of the directory is
always in range; the file of an entry is not, since the sum of its offset and its size wraps. `sound_iff`
says for which images and paths the result is what the directory names.
-/
namespace CapsuleOS.Rootfs

open Lib

/-! ## What the directory names -/

section Directory

variable (image : List UInt8) (path : String) (i : Nat)

def entryPos (i : Nat) : Nat := headSize + i * entrySize

def pathField : List UInt8 := slice image (entryPos i) (entryPos i + maxPathLen)

def offsetAt : Nat := (leField 64 image (entryPos i + maxPathLen)).toNat

def sizeAt : Nat := (leField 64 image (entryPos i + maxPathLen + 8)).toNat

/-- The path as the kernel reads it: empty without a terminator, and empty if it is not a string. -/
def readPath : String := (fromUtf8 ((pathField image i).take (actualLen (pathField image i)))).getD ""

/-- The bytes before the terminator. -/
def terminated (bytes : List UInt8) : Option (List UInt8) :=
  if 0 ∈ bytes then some (bytes.takeWhile (· ≠ 0)) else none

def Headed : Prop := headSize ≤ image.length ∧ slice image 0 8 = magic

/-- The image has the entry. -/
structure IsEntry : Prop where
  counted : i < (leField 64 image 8).toNat
  inside : entryPos i + entrySize ≤ image.length

/-- The entry has the path, and its file is in the image. -/
structure Names : Prop where
  entry : IsEntry image i
  path : terminated (pathField image i) = some (utf8 path)
  fits : offsetAt image i + sizeAt image i ≤ image.length

/-- The entry passes the tests of the kernel. -/
structure Passes : Prop where
  entry : IsEntry image i
  path : readPath image i = path
  fits : wadd (offsetAt image i) (sizeAt image i) ≤ image.length

end Directory

/-- No access is out of range, and a result is the file of the first entry that has the path and whose file
is in the image. -/
def Sound (image : List UInt8) (path : String) : Prop :=
  ∃ result, getFileChecked image path = .ok result ∧ ∀ file, result = some file → ∃ i,
    IsLeast { i | Names image path i } i ∧ file.start = offsetAt image i ∧
      file.stop = offsetAt image i + sizeAt image i

/-- The first entry that passes the tests does not wrap, and it has the path or names the same file as the
first one that has it. -/
def Orderly (image : List UInt8) (path : String) : Prop :=
  Headed image → ∀ i, IsLeast { i | Passes image path i } i → offsetAt image i + sizeAt image i < 2 ^ 64 ∧
    (terminated (pathField image i) = some (utf8 path) ∨ ∃ j, IsLeast { j | Names image path j } j ∧
      offsetAt image j = offsetAt image i ∧ sizeAt image j = sizeAt image i)

/-! ## Paths -/

section Paths

variable {image bytes : List UInt8} {path : String} {i : Nat}

/-- With a terminator, the path is what is before it. -/
theorem take_actualLen (short : bytes.length ≤ maxPathLen) (zero : 0 ∈ bytes) :
    bytes.take (actualLen bytes) = bytes.takeWhile (· ≠ 0) := by
  have found : bytes.findIdx? (· = 0) = some (bytes.findIdx (· = 0)) :=
    List.findIdx?_eq_some_of_exists ⟨0, zero, decide_eq_true rfl⟩
  rw [actualLen, List.take_of_length_le short, found, List.takeWhile_eq_take_findIdx_not]
  simp

theorem actualLen_none (noZero : 0 ∉ bytes) : actualLen bytes = 0 := by
  have missing : (bytes.take maxPathLen).findIdx? (· = 0) = none := by
    rw [List.findIdx?_eq_none_iff]
    intro b mem
    exact decide_eq_false fun eq => noZero (eq ▸ List.mem_of_mem_take mem)
  rw [actualLen, missing, Option.getD_none]

theorem pathField_length (inside : entryPos i + entrySize ≤ image.length) :
    (pathField image i).length = maxPathLen := by
  unfold entrySize at inside
  rw [pathField, slice_length (Nat.le_add_right _ _) (by unfold maxPathLen; omega), Nat.add_sub_cancel_left]

/-- A path with its terminator is read as it is. -/
theorem readPath_of_terminated (inside : entryPos i + entrySize ≤ image.length)
    (named : terminated (pathField image i) = some (utf8 path)) : readPath image i = path := by
  unfold terminated at named
  split_ifs at named with zero
  have bytes := Option.some.inj named
  rw [readPath, take_actualLen (pathField_length inside).le zero, bytes, fromUtf8_utf8, Option.getD_some]

/-- What is read and not empty is there, with its terminator. -/
theorem terminated_of_readPath (inside : entryPos i + entrySize ≤ image.length)
    (read : readPath image i = path) (nonempty : path ≠ "") :
    terminated (pathField image i) = some (utf8 path) := by
  have valid : fromUtf8 ((pathField image i).take (actualLen (pathField image i))) = some path := by
    unfold readPath at read
    cases h : fromUtf8 ((pathField image i).take (actualLen (pathField image i))) with
    | none => exact absurd (by rw [← read, h, Option.getD_none]) nonempty
    | some s => rw [← read, h, Option.getD_some]
  have bytes := utf8_of_fromUtf8 valid
  by_cases zero : 0 ∈ pathField image i
  · rw [terminated, if_pos zero, ← take_actualLen (pathField_length inside).le zero, bytes]
  · have empty : utf8 path = utf8 "" := by
      rw [← bytes, actualLen_none zero, List.take_zero]
      rfl
    have same : some path = some "" := by rw [← fromUtf8_utf8, empty, fromUtf8_utf8]
    exact absurd (Option.some.inj same) nonempty

theorem Names.passes (h : Names image path i) : Passes image path i where
  entry := h.entry
  path := readPath_of_terminated h.entry.inside h.path
  fits := (Nat.mod_le _ _).trans h.fits

end Paths

/-! ## The accesses -/

section Loop

variable {image : List UInt8} {path : String} {i k : Nat} {pos : Nat}

theorem entryPos_succ (i : Nat) : entryPos i + entrySize = entryPos (i + 1) := by
  rw [entryPos, entryPos, Nat.succ_mul, Nat.add_assoc]

/-- A round of the loop over the entries. -/
theorem getLoopChecked_inside (inside : entryPos i + entrySize ≤ image.length) (count : Nat) :
    getLoopChecked image path (count + 1) (entryPos i) =
      if readPath image i = path ∧ wadd (offsetAt image i) (sizeAt image i) ≤ image.length then do
        let file ← readPart .outOfRange image (offsetAt image i) (wadd (offsetAt image i) (sizeAt image i))
        return some file
      else getLoopChecked image path count (entryPos (i + 1)) := by
  rw [← entryPos_succ]
  exact getLoopChecked_round inside count

theorem getLoopChecked_outside (outside : ¬entryPos i + entrySize ≤ image.length) (count : Nat) :
    getLoopChecked image path count (entryPos i) = .ok none := by
  cases count with
  | zero => rfl
  | succ count => rw [getLoopChecked, if_pos (Nat.lt_of_not_le outside)]

/-- No entry from `i` on passes. -/
theorem getLoopChecked_none {count : Nat} (total : i + count = (leField 64 image 8).toNat)
    (fails : ∀ j, i ≤ j → ¬Passes image path j) : getLoopChecked image path count (entryPos i) = .ok none := by
  induction count generalizing i with
  | zero => rfl
  | succ count ih =>
    by_cases inside : entryPos i + entrySize ≤ image.length
    · have turnedDown : ¬(readPath image i = path ∧ wadd (offsetAt image i) (sizeAt image i) ≤ image.length) := by
        rintro ⟨path, fits⟩
        exact fails i le_rfl ⟨⟨by omega, inside⟩, path, fits⟩
      rw [getLoopChecked_inside inside, if_neg turnedDown]
      exact ih (by omega) fun j le => fails j (by omega)
    · exact getLoopChecked_outside inside _

/-- The first entry from `i` on that passes. -/
theorem getLoopChecked_first {count : Nat} (total : i + count = (leField 64 image 8).toNat)
    (passes : Passes image path k) (le : i ≤ k) (first : ∀ j, i ≤ j → j < k → ¬Passes image path j) :
    getLoopChecked image path count (entryPos i) = (do
      let file ← readPart .outOfRange image (offsetAt image k) (wadd (offsetAt image k) (sizeAt image k))
      return some file) := by
  have counted := passes.entry.counted
  induction count generalizing i with
  | zero => omega
  | succ count ih =>
    have inside : entryPos i + entrySize ≤ image.length := by
      have before : i * entrySize ≤ k * entrySize := Nat.mul_le_mul_right _ le
      have last := passes.entry.inside
      unfold entryPos at last ⊢
      omega
    rw [getLoopChecked_inside inside]
    rcases Nat.eq_or_lt_of_le le with rfl | before
    · rw [if_pos ⟨passes.path, passes.fits⟩]
    · have turnedDown : ¬(readPath image i = path ∧ wadd (offsetAt image i) (sizeAt image i) ≤ image.length) := by
        rintro ⟨path, fits⟩
        exact first i le_rfl before ⟨⟨by omega, inside⟩, path, fits⟩
      rw [if_neg turnedDown]
      exact ih (by omega) before fun j le => first j (by omega)

theorem getFileChecked_headless (headless : ¬Headed image) : getFileChecked image path = .ok none := by
  unfold getFileChecked
  split_ifs with short
  · rfl
  · have long : headSize ≤ image.length := Nat.le_of_not_lt short
    have other : slice image 0 8 ≠ magic := fun same => headless ⟨long, same⟩
    unfold headSize at long
    rw [readSlice_ok (by decide) (by omega)]
    change (if slice image 0 8 ≠ magic then _ else _) = _
    rw [if_pos other]
    rfl

theorem getFileChecked_entries (headed : Headed image) : getFileChecked image path =
    getLoopChecked image path (leField 64 image 8).toNat (entryPos 0) := by
  rw [getFileChecked_headed headed.1 headed.2]
  rfl

end Loop

/-! ## Which images the kernel survives -/

section Sound

variable {image : List UInt8} {path : String} {i : Nat}

/-- Among the entries that pass, those that have the path come as they are. -/
theorem least_names (least : IsLeast { i | Passes image path i } i) (names : Names image path i) :
    IsLeast { i | Names image path i } i :=
  ⟨names, fun _ other => least.2 other.passes⟩

theorem sound_of_first (headed : Headed image) (least : IsLeast { i | Passes image path i } i) :
    Sound image path ↔ offsetAt image i + sizeAt image i < 2 ^ 64 ∧
      (terminated (pathField image i) = some (utf8 path) ∨ ∃ j, IsLeast { j | Names image path j } j ∧
        offsetAt image j = offsetAt image i ∧ sizeAt image j = sizeAt image i) := by
  have run := getLoopChecked_first (Nat.zero_add _) least.1 (Nat.zero_le i) fun j _ lt passes =>
    absurd (least.2 passes) (Nat.not_le.mpr lt)
  rw [← getFileChecked_entries headed] at run
  have offset_lt := (leField 64 image (entryPos i + maxPathLen)).isLt
  have size_lt := (leField 64 image (entryPos i + maxPathLen + 8)).isLt
  have fits := least.1.fits
  constructor
  · rintro ⟨result, returned, named⟩
    rw [run] at returned
    by_cases small : offsetAt image i + sizeAt image i < 2 ^ 64
    · refine ⟨small, ?_⟩
      rw [wadd_eq small] at returned fits
      rw [readPart_ok (Nat.le_add_right _ _) fits] at returned
      obtain ⟨j, first, start, stop⟩ := named _ (Except.ok.inj returned).symm
      change offsetAt image i = _ at start
      change offsetAt image i + sizeAt image i = _ at stop
      exact .inr ⟨j, first, start.symm, by omega⟩
    · have back : wadd (offsetAt image i) (sizeAt image i) < offsetAt image i := by
        unfold wadd
        change offsetAt image i < 2 ^ 64 at offset_lt
        change sizeAt image i < 2 ^ 64 at size_lt
        omega
      rw [readPart_panic back] at returned
      cases returned
  · rintro ⟨small, named⟩
    rw [wadd_eq small] at run fits
    rw [readPart_ok (Nat.le_add_right _ _) fits] at run
    refine ⟨_, run, fun file returned => ?_⟩
    cases Option.some.inj returned
    rcases named with named | ⟨j, first, start, size⟩
    · exact ⟨i, least_names least ⟨least.1.entry, named, fits⟩, rfl, rfl⟩
    · exact ⟨j, first, start.symm, by rw [start, size]⟩

/-- `get_file` stays in the image and gives what the directory names exactly for the orderly images. -/
theorem sound_iff (image : List UInt8) (path : String) : Sound image path ↔ Orderly image path := by
  by_cases headed : Headed image
  · by_cases any : ∃ i, Passes image path i
    · classical
      have least : IsLeast { i | Passes image path i } (Nat.find any) :=
        ⟨Nat.find_spec any, fun j passes => Nat.find_min' any passes⟩
      rw [sound_of_first headed least]
      constructor
      · intro good _ i other
        rwa [other.unique least]
      · exact fun orderly => orderly headed _ least
    · have run := getLoopChecked_none (Nat.zero_add _) fun j _ passes => any ⟨j, passes⟩
      rw [← getFileChecked_entries headed] at run
      refine iff_of_true ⟨none, run, nofun⟩ ?_
      exact fun _ i least => absurd ⟨i, least.1⟩ any
  · exact iff_of_true ⟨none, getFileChecked_headless headed, nofun⟩ fun headed' => absurd headed' headed

/-- For a path that is not empty, only the sum matters. -/
theorem orderly_of_nonempty (nonempty : path ≠ "") : Orderly image path ↔ (Headed image → ∀ i,
    IsLeast { i | Passes image path i } i → offsetAt image i + sizeAt image i < 2 ^ 64) := by
  constructor
  · exact fun orderly headed i least => (orderly headed i least).1
  · intro small headed i least
    exact ⟨small headed i least,
      .inl (terminated_of_readPath least.1.entry.inside least.1.path nonempty)⟩

end Sound

/-- One entry with the path "a", the largest offset and size 1. -/
def wrappedImage : List UInt8 :=
  magic ++ le64 1 ++ pathBytes "a" ++ le64 (2 ^ 64 - 1) ++ le64 1

/-- The end of the file is 0, behind its start. -/
theorem wrapped_file_panics : ¬ ∀ (image : List UInt8) (path : String), Sound image path := by
  intro claim
  obtain ⟨result, returned, -⟩ := claim wrappedImage "a"
  have panics : unchecked (getFileChecked wrappedImage "a") = none := by decide +kernel
  rw [returned] at panics
  cases panics

end CapsuleOS.Rootfs
