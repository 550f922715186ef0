import CapsuleOS.Cat.RunCat
import CapsuleOS.Rootfs.Image

/-!
# cat on the console

`CapsuleEnv` is the trait on top of libstd and libc. It prints a chunk only if that is text by itself, so that a
chunk with a part of a character is lost.
-/
namespace CapsuleOS.Cat

open Lib
open Rootfs (utf8 fromUtf8 fromUtf8_utf8 utf8_of_fromUtf8)

/-- The calls of libc. `read` gives a count, which is negative for an error, and the bytes in the buffer. -/
structure Libc (σ : Type) where
  openStr : String → σ → Int × σ
  read : Int → Nat → σ → Int × List UInt8 × σ
  write : Int → List UInt8 → σ → σ
  close : Int → σ → σ

/-- `libstd::fs::File`. -/
structure File where
  fd : Int

section Env

variable {σ : Type} (libc : Libc σ)

def File.openFile (path : String) : Prog σ Unit File := fun s =>
  let (fd, s) := libc.openStr path s
  if fd ≥ 0 then .ok ⟨fd⟩ s else .err () s

def File.read (file : File) (len : Nat) : Prog σ Unit (List UInt8) := fun s =>
  let (n, buf, s) := libc.read file.fd len s
  if n ≥ 0 then .ok (buf.take n.toNat) s else .err () s

/-- `libstd::io::print`. -/
def print (text : String) : σ → σ := libc.write 1 (utf8 text)

def capsuleEnv : FileSystem σ where
  openFile path s :=
    match File.openFile libc path s with
    | .ok file s => .ok file.fd s
    | .err _ s => .err .fileNotFound s
    | .fault s => .fault s
  read fd len s :=
    match (File.mk fd).read libc len s with
    | .ok data s => .ok data s
    | .err _ s => .err .unknown s
    | .fault s => .fault s
  close fd := libc.close fd
  writeStdout data :=
    match fromUtf8 data with
    | some text => print libc text
    | none => id

end Env

/-- The chunks that the file server has to give, and what was written to the console. -/
structure Terminal where
  reads : List (List UInt8)
  console : List UInt8

/-- The file is opened as `fd`. -/
def terminal (fd : Nat) : Libc Terminal where
  openStr _ t := (fd, t)
  read _ _ t := ((t.reads.headD []).length, t.reads.headD [], { t with reads := t.reads.tail })
  write out buf t := if out = 1 then { t with console := t.console ++ buf } else t
  close _ t := t

/-- What of a chunk reaches the console. -/
def shownOf (data : List UInt8) : List UInt8 := if fromUtf8 data = none then [] else data

theorem writeStdout_shown (fd : Nat) (data : List UInt8) (t : Terminal) :
    (capsuleEnv (terminal fd)).writeStdout data t = { t with console := t.console ++ shownOf data } := by
  simp only [capsuleEnv, shownOf]
  cases text : fromUtf8 data with
  | none => simp only [if_true, List.append_nil, id]
  | some s =>
    rw [if_neg (by simp), utf8_of_fromUtf8 text]
    rfl

theorem capsuleEnv_streams (fd : Nat) :
    Streams (capsuleEnv (terminal fd)) fd Terminal.reads Terminal.console shownOf where
  read t := by
    refine ⟨{ t with reads := t.reads.tail }, ?_, rfl, rfl⟩
    have chunk : (File.mk fd).read (terminal fd) bufferSize t =
        .ok ((t.reads.headD []).take (t.reads.headD []).length) { t with reads := t.reads.tail } := by
      rw [File.read]
      exact if_pos (Int.natCast_nonneg (t.reads.headD []).length)
    simp only [capsuleEnv, chunk, List.take_length]
  write_ahead t data := by rw [writeStdout_shown]
  write_out t data := by rw [writeStdout_shown]
  close_out _ := rfl

/-- Where chunks are shown or lost, nothing is lost exactly if every one is shown. -/
theorem flatMap_shown_iff {shown : List UInt8 → List UInt8} (either : ∀ c, shown c = c ∨ shown c = [])
    {chunks : List (List UInt8)} (some_byte : ∀ c ∈ chunks, c ≠ []) :
    chunks.flatMap shown = chunks.flatten ↔ ∀ c ∈ chunks, shown c = c := by
  have shorter : ∀ cs : List (List UInt8), (cs.flatMap shown).length ≤ cs.flatten.length := by
    intro cs
    induction cs with
    | nil => exact le_rfl
    | cons c cs ih =>
      rw [List.flatMap_cons, List.flatten_cons, List.length_append, List.length_append]
      rcases either c with same | lost
      · rw [same]
        omega
      · rw [lost, List.length_nil]
        omega
  induction chunks with
  | nil => exact iff_of_true rfl (by simp)
  | cons c cs ih =>
    obtain ⟨first, later⟩ := List.forall_mem_cons.mp some_byte
    have others : cs.flatMap shown = cs.flatten ↔ ∀ c ∈ cs, shown c = c := ih later
    rw [List.flatMap_cons, List.flatten_cons, List.forall_mem_cons]
    rcases either c with same | lost
    · rw [same, List.append_cancel_left_eq, others]
      exact ⟨fun rest => ⟨rfl, rest⟩, And.right⟩
    · refine iff_of_false (fun eq => ?_) fun all => first (all.1 ▸ lost)
      have pos := List.length_pos_iff.mpr first
      have whole := congrArg List.length eq
      have rest := shorter cs
      rw [lost, List.nil_append, List.length_append] at whole
      omega

theorem shownOf_eq_iff {data : List UInt8} (some_byte : data ≠ []) :
    shownOf data = data ↔ ∃ text, utf8 text = data := by
  unfold shownOf
  split_ifs with invalid
  · refine iff_of_false (fun eq => some_byte eq.symm) ?_
    rintro ⟨text, rfl⟩
    rw [fromUtf8_utf8] at invalid
    cases invalid
  · obtain ⟨text, valid⟩ := Option.ne_none_iff_exists'.mp invalid
    exact iff_of_true rfl ⟨text, (utf8_of_fromUtf8 valid).symm⟩

theorem shownOf_or (data : List UInt8) : shownOf data = data ∨ shownOf data = [] := by
  unfold shownOf
  split_ifs
  · exact .inr rfl
  · exact .inl rfl

/-- The console shows the chunks that are text by themselves. -/
theorem runCat_console (fd : Nat) (path : String) {chunks : List (List UInt8)}
    (sizes : ∀ c ∈ chunks, c ≠ [] ∧ c.length ≤ bufferSize) {fuel : Nat} (enough : chunks.length < fuel) :
    ∃ t, runCat (capsuleEnv (terminal fd)) fuel path ⟨false⟩ ⟨chunks, []⟩ = .ok () t ∧
      t.console = chunks.flatMap shownOf := by
  have opened : (capsuleEnv (terminal fd)).openFile path ⟨chunks, []⟩ = .ok fd ⟨chunks, []⟩ := by
    have file : File.openFile (terminal fd) path ⟨chunks, []⟩ = .ok ⟨fd⟩ ⟨chunks, []⟩ := by
      rw [File.openFile]
      exact if_pos (Int.natCast_nonneg fd)
    simp only [capsuleEnv, file]
  exact runCat_quiet (capsuleEnv_streams fd) sizes enough opened rfl

/-- `cat` returns, and the console shows the content exactly if every chunk is text by itself. -/
theorem cat_console_iff (fd : Nat) (path : String) (chunks : List (List UInt8))
    (sizes : ∀ c ∈ chunks, c ≠ [] ∧ c.length ≤ bufferSize) (fuel : Nat) (enough : chunks.length < fuel) :
    ∃ t, runCat (capsuleEnv (terminal fd)) fuel path ⟨false⟩ ⟨chunks, []⟩ = .ok () t ∧
      (t.console = chunks.flatten ↔ ∀ c ∈ chunks, ∃ text, utf8 text = c) := by
  obtain ⟨t, run, shown⟩ := runCat_console fd path sizes enough
  refine ⟨t, run, ?_⟩
  rw [shown, flatMap_shown_iff shownOf_or fun c mem => (sizes c mem).1]
  exact forall₂_congr fun c mem => shownOf_eq_iff (sizes c mem).1

/-- An accented letter and a newline. -/
theorem cat_console_iff_whole : ∃ t, runCat (capsuleEnv (terminal 3)) 3 "/a" ⟨false⟩ ⟨[[0xC3, 0xA9], [10]], []⟩ =
    .ok () t ∧ t.console = [0xC3, 0xA9, 10] := by
  obtain ⟨t, run, shown⟩ := cat_console_iff 3 "/a" [[0xC3, 0xA9], [10]] (by decide) 3 (by decide)
  refine ⟨t, run, shown.mpr ?_⟩
  rw [List.forall_mem_cons, List.forall_mem_singleton]
  exact ⟨⟨"é", by decide⟩, "\n", by decide⟩

/-- The letter behind 127 others, as the messages of the file server cut it. -/
def straddling : List (List UInt8) := [List.replicate 127 97 ++ [0xC3], [0xA9]]

/-- The content is text, and nothing of it reaches the console. -/
theorem character_lost : ¬ ∀ fd path chunks fuel, (∀ c ∈ chunks, c ≠ [] ∧ c.length ≤ bufferSize) →
    chunks.length < fuel → ∃ t, runCat (capsuleEnv (terminal fd)) fuel path ⟨false⟩ ⟨chunks, []⟩ = .ok () t ∧
      t.console = chunks.flatten := by
  intro claim
  have sizes : ∀ c ∈ straddling, c ≠ [] ∧ c.length ≤ bufferSize := by simp [straddling, bufferSize]
  have enough : straddling.length < 3 := by decide
  obtain ⟨t, run, whole⟩ := claim 3 "/a" straddling 3 sizes enough
  obtain ⟨t', run', shown⟩ := runCat_console 3 "/a" sizes enough
  cases run.symm.trans run'
  have lost : straddling.flatMap shownOf = [] := by decide +kernel
  rw [shown, lost] at whole
  cases whole

end CapsuleOS.Cat
