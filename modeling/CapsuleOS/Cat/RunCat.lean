import CapsuleOS.Lib.Outcome

/-!
# cat

`run_cat` reads a file in pieces of at most 2048 bytes and writes it out, with line numbers on demand. It meets its
system through the trait `FileSystem`, here a record of what the calls do to a state. A panic is a fault.
-/
namespace CapsuleOS.Cat

open Lib

inductive FsError where
  | fileNotFound
  | permissionDenied
  | unknown
  deriving DecidableEq, Repr

structure CatOptions where
  number : Bool

/-- `read` gives the bytes that it has put into a buffer of the given size. -/
structure FileSystem (σ : Type) where
  openFile : String → Prog σ FsError Int
  read : Int → Nat → Prog σ FsError (List UInt8)
  close : Int → σ → σ
  writeStdout : List UInt8 → σ → σ

def bufferSize : Nat := 2048

/-- The length of `temp` and of `num_buf`. -/
def digitRoom : Nat := 20

/-- The digits from the lowest on. A digit beyond `temp` panics. -/
def digitLoop : Nat → Nat → List UInt8 → Option (List UInt8)
  | rounds, val, temp =>
    if val = 0 then some temp
    else match rounds with
      | 0 => none
      | rounds + 1 => digitLoop rounds (val / 10) (temp ++ [UInt8.ofNat (48 + val % 10)])

def formatU64 (val : Nat) : Option (List UInt8) :=
  if val = 0 then some [48] else (digitLoop digitRoom val []).map List.reverse

/-- What `run_cat` carries from one read to the next. -/
structure LineState where
  lineNum : BitVec 64
  startOfLine : Bool

section Program

variable {σ : Type} (env : FileSystem σ)

def printLineNumber (lineNum : BitVec 64) : Prog σ FsError Unit :=
  match formatU64 lineNum.toNat with
  | none => Prog.fault
  | some num => do
    let padding := 6 - min num.length 6
    Prog.forEach (fun _ => Prog.modify (env.writeStdout [32])) (List.range padding)
    Prog.modify (env.writeStdout num)
    Prog.modify (env.writeStdout [32, 32])

/-- A line number in front of the first byte of a line. -/
def beginLine (st : LineState) : Prog σ FsError LineState := do
  if st.startOfLine then
    printLineNumber env st.lineNum
    return ⟨st.lineNum + 1, false⟩
  else return st

/-- The bytes from `i` on; those from `start` on are still to be written. -/
def scanLoop (data : List UInt8) : Nat → Nat → Nat → LineState → Prog σ FsError (Nat × LineState)
  | 0, _, start, st => pure (start, st)
  | rounds + 1, i, start, st => do
    let st ← beginLine env st
    if data[i]? = some 10 then
      Prog.modify (env.writeStdout ((data.take (i + 1)).drop start))
      scanLoop data rounds (i + 1) (i + 1) { st with startOfLine := true }
    else scanLoop data rounds (i + 1) start st

def numberChunk (data : List UInt8) (st : LineState) : Prog σ FsError LineState := do
  let (start, st) ← scanLoop env data data.length 0 0 st
  if start < data.length then
    Prog.modify (env.writeStdout (data.drop start))
    return st
  else return st

/-- What is done with the bytes of one read. -/
def showChunk (opts : CatOptions) (data : List UInt8) (st : LineState) : Prog σ FsError LineState :=
  if opts.number then numberChunk env data st
  else do
    Prog.modify (env.writeStdout data)
    return st

/-- The slice of the buffer panics if a read reports more bytes than there are. -/
def catLoop (opts : CatOptions) (fd : Int) : Nat → LineState → Prog σ FsError Unit
  | 0, _ => Prog.fault
  | rounds + 1, st => do
    match ← Prog.attempt (env.read fd bufferSize) with
    | .error e =>
      Prog.modify (env.close fd)
      Prog.throw e
    | .ok data =>
      if data.length = 0 then Prog.modify (env.close fd)
      else if data.length > bufferSize then Prog.fault
      else
        let st ← showChunk env opts data st
        catLoop opts fd rounds st

/-- The loop goes round `fuel` times at most. -/
def runCat (fuel : Nat) (path : String) (opts : CatOptions) : Prog σ FsError Unit := do
  let fd ← env.openFile path
  catLoop env opts fd fuel ⟨1, true⟩

end Program

/-! ## Output -/

/-- An environment that has the chunks `ahead` to hand out, and shows `shown data` of what is written. -/
structure Streams {σ : Type} (env : FileSystem σ) (fd : Int) (ahead : σ → List (List UInt8))
    (out : σ → List UInt8) (shown : List UInt8 → List UInt8) : Prop where
  read : ∀ s, ∃ s', env.read fd bufferSize s = .ok ((ahead s).headD []) s' ∧ ahead s' = (ahead s).tail ∧ out s' = out s
  write_ahead : ∀ s data, ahead (env.writeStdout data s) = ahead s
  write_out : ∀ s data, out (env.writeStdout data s) = out s ++ shown data
  close_out : ∀ s, out (env.close fd s) = out s

section Emits

variable {σ α β : Type} {ahead : σ → List (List UInt8)} {out : σ → List UInt8}

/-- The routine returns `a`, adds `text` to the output and reads nothing. -/
def Emits (ahead : σ → List (List UInt8)) (out : σ → List UInt8) (m : Prog σ FsError α) (a : α)
    (text : List UInt8) : Prop :=
  ∀ s, ∃ s', m s = .ok a s' ∧ ahead s' = ahead s ∧ out s' = out s ++ text

theorem Emits.pure (a : α) : Emits ahead out (Pure.pure a) a [] :=
  fun s => ⟨s, rfl, rfl, (List.append_nil _).symm⟩

theorem Emits.bind {m : Prog σ FsError α} {f : α → Prog σ FsError β} {a : α} {b : β} {text text' : List UInt8}
    (first : Emits ahead out m a text) (rest : Emits ahead out (f a) b text') :
    Emits ahead out (m >>= f) b (text ++ text') := by
  intro s
  obtain ⟨s₁, run, same, grown⟩ := first s
  obtain ⟨s₂, run', same', grown'⟩ := rest s₁
  refine ⟨s₂, by rw [Prog.bind_ok run, run'], same'.trans same, ?_⟩
  rw [grown', grown, List.append_assoc]

theorem Emits.congr {m : Prog σ FsError α} {a : α} {text text' : List UInt8} (h : Emits ahead out m a text)
    (same : text = text') : Emits ahead out m a text' := same ▸ h

variable {env : FileSystem σ} {fd : Int} {shown : List UInt8 → List UInt8} (streams : Streams env fd ahead out shown)

include streams

theorem Streams.emits (data : List UInt8) :
    Emits ahead out (Prog.modify (env.writeStdout data)) () (shown data) :=
  fun s => ⟨_, rfl, streams.write_ahead s data, streams.write_out s data⟩

/-- What a loop over the chunks adds, from the text of each. -/
def streamed (text : LineState → List UInt8 → List UInt8) (next : LineState → List UInt8 → LineState) :
    LineState → List (List UInt8) → List UInt8
  | _, [] => []
  | st, c :: cs => text st c ++ streamed text next (next st c) cs

/-- The loop shows chunk after chunk, closes the file and returns. -/
theorem catLoop_streamed {opts : CatOptions} (text : LineState → List UInt8 → List UInt8)
    (next : LineState → List UInt8 → LineState)
    (shows : ∀ data st, Emits ahead out (showChunk env opts data st) (next st data) (text st data))
    {chunks : List (List UInt8)} (sizes : ∀ c ∈ chunks, c ≠ [] ∧ c.length ≤ bufferSize) {rounds : Nat}
    (enough : chunks.length < rounds) {s : σ} (st : LineState) (left : ahead s = chunks) :
    ∃ s₁, catLoop env opts fd rounds st s = .ok () (env.close fd s₁) ∧
      out s₁ = out s ++ streamed text next st chunks := by
  induction chunks generalizing rounds s st with
  | nil =>
    obtain ⟨rounds, rfl⟩ := Nat.exists_eq_succ_of_ne_zero (Nat.ne_zero_of_lt enough)
    obtain ⟨s₁, read, -, same⟩ := streams.read s
    rw [left, List.headD_nil] at read
    refine ⟨s₁, ?_, ?_⟩
    · rw [catLoop, Prog.bind_ok (Prog.attempt_ok read)]
      rfl
    · rw [same]
      exact (List.append_nil _).symm
  | cons c cs ih =>
    obtain ⟨rounds, rfl⟩ := Nat.exists_eq_succ_of_ne_zero (Nat.ne_zero_of_lt enough)
    obtain ⟨⟨some_byte, short⟩, later⟩ := List.forall_mem_cons.mp sizes
    obtain ⟨s₁, read, ahead₁, same⟩ := streams.read s
    rw [left, List.headD_cons] at read
    rw [left, List.tail_cons] at ahead₁
    obtain ⟨s₂, show_run, ahead₂, grown⟩ := shows c st s₁
    obtain ⟨s₃, run, result⟩ := ih later (Nat.lt_of_succ_lt_succ enough) (next st c) (ahead₂.trans ahead₁)
    refine ⟨s₃, ?_, ?_⟩
    · have pos : ¬ c.length = 0 := fun zero => some_byte (List.length_eq_zero_iff.mp zero)
      rw [catLoop, Prog.bind_ok (Prog.attempt_ok read)]
      simp only [if_neg pos, if_neg (Nat.not_lt.mpr short)]
      rw [Prog.bind_ok show_run, run]
    · rw [result, grown, same, streamed, List.append_assoc]

omit streams in
theorem streamed_still (cs : List (List UInt8)) (st : LineState) :
    streamed (fun _ data => shown data) (fun st _ => st) st cs = cs.flatMap shown := by
  induction cs with
  | nil => rfl
  | cons c cs ih => rw [streamed, ih, List.flatMap_cons]

/-- Without numbers every chunk is written as it is. -/
theorem runCat_quiet {chunks : List (List UInt8)} (sizes : ∀ c ∈ chunks, c ≠ [] ∧ c.length ≤ bufferSize) {fuel : Nat}
    (enough : chunks.length < fuel) {path : String} {s₀ s : σ} (opened : env.openFile path s₀ = .ok fd s)
    (left : ahead s = chunks) : ∃ s', runCat env fuel path ⟨false⟩ s₀ = .ok () s' ∧
      out s' = out s ++ chunks.flatMap shown := by
  have shows : ∀ data st, Emits ahead out (showChunk env ⟨false⟩ data st) st (shown data) := fun data st =>
    ((streams.emits data).bind (.pure st)).congr (List.append_nil _)
  obtain ⟨s₁, run, result⟩ := catLoop_streamed streams _ _ shows sizes enough ⟨1, true⟩ left
  rw [streamed_still] at result
  exact ⟨env.close fd s₁, by rw [runCat, Prog.bind_ok opened, run], (streams.close_out s₁).trans result⟩

end Emits

end CapsuleOS.Cat
