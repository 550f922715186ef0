import CapsuleOS.Osh.Session

/-!
# Scripts

The scan of `run_script` finds the lines of a script at its line feeds. The text behind the last one is a
line of its own; if it is empty, it executes nothing. Each line is executed without its line feed, where the
interactive shell has it at the end, and `execute_pipeline` does not see the difference.
-/
namespace CapsuleOS.Osh

open Lib

def isFeed (byte : UInt8) : Bool := byte = 10

theorem feed_marks : Text.Marks isFeed (· == '\n') := by
  have low : Text.Marks (fun b => decide (b ∈ ['\n'].map fun c => UInt8.ofNat c.toNat))
      (fun c => decide (c ∈ ['\n'])) := Text.marks_of_low (by decide)
  have bytes : isFeed = fun b => decide (b ∈ ['\n'].map fun c => UInt8.ofNat c.toNat) := by
    funext b
    have code : ['\n'].map (fun c => UInt8.ofNat c.toNat) = [10] := by decide
    simp [code, isFeed]
  have chars : (fun c : Char => c == '\n') = fun c => decide (c ∈ ['\n']) := by
    funext c
    simp [beq_eq_decide]
  rw [bytes, chars]
  exact low

theorem textOf_bytes (t : Text) : textOf t.bytes = some t := by
  have data : (⟨t.bytes.toArray⟩ : ByteArray) = (String.ofList t).toByteArray := by
    rw [String.toByteArray_ofList, List.utf8Encode]
    exact ByteArray.ext List.data_toByteArray.symm
  rw [textOf, data, String.fromUTF8?, dif_pos (String.ofList t).isValidUTF8]
  exact congrArg some String.toList_ofList

/-- Bytes that are text are those of the text. -/
theorem bytes_of_textOf {bytes : List UInt8} {t : Text} (read : textOf bytes = some t) : t.bytes = bytes := by
  obtain ⟨s, found, rfl⟩ := Option.map_eq_some_iff.mp read
  have same : s.toByteArray = ⟨bytes.toArray⟩ := by
    unfold String.fromUTF8? at found
    split_ifs at found
    cases found
    rfl
  have data : (⟨(Text.bytes s.toList).toArray⟩ : ByteArray) = s.toByteArray := by
    rw [← String.ofList_toList (s := s), String.toByteArray_ofList, List.utf8Encode, String.toList_ofList]
    exact ByteArray.ext List.data_toByteArray.symm
  rw [same] at data
  simpa using data

section Script

variable {σ : Type} {env : Environment σ}

theorem executePipeline_nil : executePipeline env [] = pure () := rfl

theorem executePipeline_feed (line : Text) : executePipeline env (line ++ ['\n']) = executePipeline env line := by
  have feed : isLineEnd '\n' = true := rfl
  have same : (line ++ ['\n']).rdropWhile isLineEnd = line.rdropWhile isLineEnd :=
    Text.rdropWhile_append (by simpa using feed)
  rw [executePipeline, same, executePipeline]

theorem executeBytes_text (line : Text) : executeBytes env line.bytes = executePipeline env line := by
  rw [executeBytes, textOf_bytes]

theorem executeBytes_line (line : Text) : executeBytes env (line.bytes ++ [lineFeed]) = executePipeline env line := by
  have bytes : line.bytes ++ [lineFeed] = Text.bytes (line ++ ['\n']) := by
    rw [Text.bytes_append]
    rfl
  rw [bytes, executeBytes_text, executePipeline_feed]

/-! ## The scan -/

theorem scriptLoop_skip {script : Text} {i start : Nat} {more bs : List UInt8} (unmarked : ∀ b ∈ bs, isFeed b = false) :
    scriptLoop env script i (bs ++ more) start = scriptLoop env script (i + bs.length) more start := by
  induction bs generalizing i with
  | nil => rfl
  | cons b bs ih =>
    obtain ⟨here, later⟩ := List.forall_mem_cons.mp unmarked
    rw [List.cons_append, scriptLoop, if_neg (by simpa [isFeed] using here), ih later, List.length_cons]
    congr 1
    omega

/-- What `runScript` does with the text behind the last line feed. -/
def executeTail (env : Environment σ) (script : Text) (start : Nat) : ShM σ Unit :=
  match script.sliceFrom start with
  | none => Prog.fault
  | some tail => if tail = [] then pure () else executePipeline env tail

/-- `done` is behind the last line feed that was found, and the scan is behind `part`. -/
theorem scriptLoop_eq (done part rest : Text) (s : σ) :
    (scriptLoop env (done ++ part ++ rest) (Text.bytes (done ++ part)).length rest.bytes done.bytes.length >>=
        executeTail env (done ++ part ++ rest)) s =
      Prog.forEach (executePipeline env) ((rest.splitOnP (· == '\n')).modifyHead (part ++ ·)) s := by
  induction rest generalizing done part s with
  | nil =>
    have cut : (done ++ part).sliceFrom done.bytes.length = some part := Text.sliceFrom_append
    have tail : executeTail env (done ++ part) done.bytes.length = executePipeline env part := by
      rw [executeTail, cut]
      dsimp only
      split_ifs with blank
      · rw [blank, executePipeline_nil]
      · rfl
    have parts : (([] : Text).splitOnP (· == '\n')).modifyHead (part ++ ·) = [part] := by
      simp [List.splitOnP_nil]
    rw [parts, List.append_nil, Text.bytes_nil, scriptLoop, Prog.bind_ok (Prog.pure_apply _ s), tail, Prog.forEach,
      Prog.forEach]
    exact (congrFun (Prog.bind_pure_unit _) s).symm
  | cons c rest ih =>
    rw [Text.bytes_cons]
    cases feed : c == '\n' with
    | true =>
      obtain ⟨b, enc, mark⟩ := feed_marks.hit c feed
      have text : done ++ part ++ [c] ++ rest = done ++ part ++ c :: rest := by simp
      have cut : (done ++ part ++ c :: rest).slice done.bytes.length (Text.bytes (done ++ part)).length = some part :=
        Text.slice_append
      have position : (Text.bytes (done ++ part)).length + 1 = (Text.bytes (done ++ part ++ [c])).length := by
        simp [enc, Nat.add_assoc]
      have parts : (c :: rest).splitOnP (· == '\n') = [] :: rest.splitOnP (· == '\n') := Text.splitOnP_mark feed
      have ten : b = 10 := by simpa [isFeed] using mark
      rw [enc, List.singleton_append, scriptLoop, if_pos ten, cut, parts, List.modifyHead_cons, List.append_nil,
        Prog.forEach]
      dsimp only
      rw [← Prog.bind_assoc]
      refine Prog.bind_congr fun _ t run => ?_
      have later := ih (done ++ part ++ [c]) [] t
      rw [List.append_nil, ← position, text, Text.modifyHead_nil] at later
      exact later
    | false =>
      have text : done ++ part ++ c :: rest = done ++ (part ++ [c]) ++ rest := by simp
      have position : (Text.bytes (done ++ part)).length + (String.utf8EncodeChar c).length =
          (Text.bytes (done ++ (part ++ [c]))).length := by simp [Nat.add_assoc]
      have parts : (c :: rest).splitOnP (· == '\n') = (rest.splitOnP (· == '\n')).modifyHead ([c] ++ ·) :=
        Text.splitOnP_skip feed
      rw [scriptLoop_skip (feed_marks.miss c feed), position, text, ih done (part ++ [c]) s, parts,
        Text.modifyHead_append]

/-- A script that is read executes its lines in order. -/
theorem runScript_lines {path script : Text} {count : Nat} {buf : List UInt8} {s t : σ}
    (read : env.readFile path scriptSize s = .ok (.ok count, buf) t) (within : count ≤ buf.length)
    (holds : buf.take count = script.bytes) :
    runScript env path s = Prog.forEach (executePipeline env) (script.splitOn '\n') t := by
  have scan := @scriptLoop_eq _ env [] [] script t
  rw [Text.modifyHead_nil, ← List.splitOn_eq_splitOnP] at scan
  rw [← scan, runScript, Prog.bind_ok read]
  dsimp only
  rw [if_pos within, holds, textOf_bytes]
  rfl

end Script

/-! ## The standard input of a host -/

/-- The loop of `read_line` on a host, with what is left of the input. -/
def hostReadLoop : List UInt8 → List UInt8 → Nat → Except ShellError Nat × List UInt8 × List UInt8
  | [], buf, bytesRead =>
    if bytesRead < buf.length then (if bytesRead > 0 then .ok bytesRead else .error .ioError, buf, [])
    else (.ok bytesRead, buf, [])
  | c :: input, buf, bytesRead =>
    if bytesRead < buf.length then
      if c = 10 then (.ok (bytesRead + 1), buf.set bytesRead c, input)
      else hostReadLoop input (buf.set bytesRead c) (bytesRead + 1)
    else (.ok bytesRead, buf, c :: input)

section Read

variable {buf bs rest : List UInt8}

/-- Bytes that are no line feed, while there is room. -/
theorem hostReadLoop_skip (total : Nat) (unmarked : ∀ b ∈ bs, isFeed b = false)
    (room : total + bs.length < buf.length) : ∃ buf',
      hostReadLoop (bs ++ rest) buf total = hostReadLoop rest buf' (total + bs.length) ∧
      buf'.length = buf.length ∧ buf'.take (total + bs.length) = buf.take total ++ bs := by
  induction bs generalizing buf total with
  | nil => exact ⟨buf, rfl, rfl, (List.append_nil _).symm⟩
  | cons b bs ih =>
    obtain ⟨here, later⟩ := List.forall_mem_cons.mp unmarked
    rw [List.length_cons] at room
    have room' : total + 1 + bs.length < (buf.set total b).length := by
      rw [List.length_set]
      omega
    obtain ⟨buf', run, length, took⟩ := ih (total + 1) later room'
    have count : total + (b :: bs).length = total + 1 + bs.length := by
      rw [List.length_cons]
      omega
    refine ⟨buf', ?_, length.trans List.length_set, ?_⟩
    · rw [List.cons_append, hostReadLoop, if_pos (by omega), if_neg (by simpa [isFeed] using here), run, count]
    · rw [count, took, take_set (by omega), List.append_assoc, List.singleton_append]

theorem hostReadLoop_line (unmarked : ∀ b ∈ bs, isFeed b = false) (room : bs.length < buf.length) :
    ∃ buf', hostReadLoop (bs ++ lineFeed :: rest) buf 0 = (.ok (bs.length + 1), buf', rest) ∧
      buf'.length = buf.length ∧ buf'.take (bs.length + 1) = bs ++ [lineFeed] := by
  obtain ⟨buf', run, length, took⟩ :=
    @hostReadLoop_skip buf bs (lineFeed :: rest) 0 unmarked (by rwa [Nat.zero_add])
  rw [Nat.zero_add] at run took
  have room' : bs.length < buf'.length := by rwa [length]
  refine ⟨buf'.set bs.length lineFeed, ?_, List.length_set.trans length, ?_⟩
  · rw [run, hostReadLoop, if_pos room', if_pos rfl]
  · rw [take_set room', took]
    rfl

theorem hostReadLoop_end (unmarked : ∀ b ∈ bs, isFeed b = false) (room : bs.length < buf.length)
    (some_byte : bs ≠ []) : ∃ buf', hostReadLoop bs buf 0 = (.ok bs.length, buf', []) ∧
      buf'.length = buf.length ∧ buf'.take bs.length = bs := by
  obtain ⟨buf', run, length, took⟩ := @hostReadLoop_skip buf bs [] 0 unmarked (by rwa [Nat.zero_add])
  rw [Nat.zero_add] at run took
  have room' : bs.length < buf'.length := by rwa [length]
  refine ⟨buf', ?_, length, took⟩
  rw [List.append_nil] at run
  rw [run, hostReadLoop, if_pos room', if_pos (List.length_pos_of_ne_nil some_byte)]

end Read

/-- What `HostEnv` calls of the standard library of a host. `currentDir` is the path as `to_string_lossy` gives it,
`setCurrentDir` and `readFile` have the kind of their errors. -/
structure HostSystem (σ : Type) where
  writeStdout : List UInt8 → ShM σ Unit
  writeStderr : List UInt8 → ShM σ Unit
  currentDir : ShM σ (Except Unit Text)
  setCurrentDir : Text → ShM σ (Except ShellError Unit)
  setVar : Text → Text → ShM σ Unit
  vars : ShM σ (List (List UInt8 × List UInt8))
  spawn : Text → List Text → ShM σ (Except Unit Nat)
  readFile : Text → Nat → ShM σ (Except ShellError Nat × List UInt8)

def nul : Char := Char.ofNat 0

/-- A variable that `set_var` panics at. -/
def BadVar (key value : Text) : Prop := key = [] ∨ '=' ∈ key ∨ nul ∈ key ∨ nul ∈ value

instance (key value : Text) : Decidable (BadVar key value) := inferInstanceAs (Decidable (_ ∨ _))

section Host

variable {σ : Type} (stdin : Part σ (List UInt8)) (sys : HostSystem σ) (env : Environment σ)

def hostReadLine (buf : List UInt8) : ShM σ (Except ShellError Nat × List UInt8) := fun s =>
  match hostReadLoop (stdin.view s) buf 0 with
  | (res, buf, rest) => .ok (res, buf) (stdin.put rest s)

/-- The bytes of the path go to the front of the buffer. -/
def hostGetcwd (buf : List UInt8) : ShM σ (Except ShellError Nat × List UInt8) := do
  match ← sys.currentDir with
  | .ok path =>
    let bytes := path.bytes
    if bytes.length > buf.length then return (.error .ioError, buf)
    else return (.ok bytes.length, bytes ++ buf.drop bytes.length)
  | .error _ => return (.error .unknown, buf)

/-- The iterator `vars` panics at a variable that is no Unicode. -/
def printVar (var : List UInt8 × List UInt8) : ShM σ Unit :=
  match textOf var.1, textOf var.2 with
  | some key, some val => do
    sys.writeStdout key.bytes
    sys.writeStdout (lit "=")
    sys.writeStdout val.bytes
    sys.writeStdout (lit "\n")
  | _, _ => Prog.fault

/-- `HostEnv`. Descriptors and waiting are only pretended. -/
def hostEnv : Environment σ where
  writeStdout := sys.writeStdout
  writeStderr := sys.writeStderr
  readLine := hostReadLine stdin
  getcwd := hostGetcwd sys
  chdir := sys.setCurrentDir
  setEnv key value :=
    if BadVar key value then Prog.fault
    else do
      sys.setVar key value
      return .ok ()
  printEnvs := do Prog.forEach (printVar sys) (← sys.vars)
  spawn cmd args := do return (← sys.spawn cmd args).mapError fun _ => .pathNotFound
  wait _ := pure (.ok 0)
  yieldCpu := pure ()
  openFile _ _ := pure (.ok 200)
  write _ _ := pure (.ok 0)
  close _ := pure ()
  readFile := sys.readFile
  exit code := Prog.throw (.exited code)

/-- The lines of a script; behind a last line feed there is none. -/
def dropBlankEnd : List Text → List Text
  | [] => []
  | [last] => if last = [] then [] else [last]
  | part :: next :: parts => part :: dropBlankEnd (next :: parts)

def scriptLines (script : Text) : List Text := dropBlankEnd (script.splitOn '\n')

/-- A line of the standard input as a script executes it, behind what is seen of it. -/
def promptedLine (line : Text) : ShM σ Unit := do
  env.writeStdout prompt
  Prog.modify fun s => stdin.put ((stdin.view s).drop (line.bytes.length + 1)) s
  executePipeline env line

end Host

/-- What is ahead in the input is the line, and `rest` is behind it. -/
inductive Ahead (line : Text) : List UInt8 → List UInt8 → Prop where
  | line (rest : List UInt8) : Ahead line (line.bytes ++ lineFeed :: rest) rest
  | last (some_char : line ≠ []) : Ahead line line.bytes []

/-- A part of a script that the buffer of a line can hold. -/
structure ShortLine (line : Text) : Prop where
  unmarked : ∀ b ∈ line.bytes, isFeed b = false
  short : line.bytes.length < inputSize

section Rounds

variable {σ : Type} {stdin : Part σ (List UInt8)} {env : Environment σ} {line : Text} {buf rest : List UInt8} {s : σ}

theorem hostReadLoop_ahead {input : List UInt8} (ahead : Ahead line input rest) (fits : ShortLine line)
    (length : buf.length = inputSize) : ∃ total buf', hostReadLoop input buf 0 = (.ok total, buf', rest) ∧
      buf'.length = inputSize ∧ 0 < total ∧ total ≤ buf'.length ∧
      executeBytes env (buf'.take total) = executePipeline env line ∧
      rest = input.drop (line.bytes.length + 1) := by
  have short := fits.short
  cases ahead with
  | line rest =>
    obtain ⟨buf', run, length', took⟩ := @hostReadLoop_line buf _ rest fits.unmarked (by rwa [length])
    refine ⟨_, buf', run, length'.trans length, Nat.succ_pos _, by omega, ?_, by simp⟩
    rw [took, executeBytes_line]
  | last some_char =>
    have some_byte : line.bytes ≠ [] := fun none => some_char (Text.bytes_eq_nil.mp none)
    obtain ⟨buf', run, length', took⟩ := hostReadLoop_end fits.unmarked (by rwa [length]) some_byte
    refine ⟨_, buf', run, length'.trans length, List.length_pos_of_ne_nil some_byte, by omega, ?_, by simp⟩
    rw [took, executeBytes_text]

/-- A round in which a line is ahead. -/
theorem shellRound_ahead (keeps : env.Keeps (Kept stdin.view)) (reads : env.readLine = hostReadLine stdin)
    (ahead : Ahead line (stdin.view s) rest) (fits : ShortLine line) (length : buf.length = inputSize) :
    ∃ buf', buf'.length = inputSize ∧
      shellRound env buf s = (promptedLine stdin env line >>= fun _ => pure buf') s := by
  cases run : env.writeStdout prompt s with
  | ok a u =>
    have same : stdin.view u = stdin.view s := by
      have kept := keeps.writeStdout prompt s
      rwa [run] at kept
    have ahead' : Ahead line (stdin.view u) rest := same ▸ ahead
    obtain ⟨total, buf', found, length', some_byte, within, executes, left⟩ := hostReadLoop_ahead ahead' fits length
    have read : env.readLine buf u = .ok (.ok total, buf') (stdin.put rest u) := by
      rw [reads, hostReadLine, found]
    refine ⟨buf', length', ?_⟩
    rw [shellRound_read run read some_byte within rfl, promptedLine, ← Prog.bind_assoc, Prog.bind_ok run,
      ← Prog.bind_assoc, Prog.bind_ok (Prog.modify_apply _ u), executes, left]
  | err e u =>
    refine ⟨buf, length, ?_⟩
    rw [shellRound, promptedLine, ← Prog.bind_assoc, Prog.bind_err run, Prog.bind_err run]
  | fault u =>
    refine ⟨buf, length, ?_⟩
    rw [shellRound, promptedLine, ← Prog.bind_assoc, Prog.bind_fault run, Prog.bind_fault run]

theorem promptedLine_input (keeps : env.Keeps (Kept stdin.view)) (ahead : Ahead line (stdin.view s) rest) {t : σ}
    (run : promptedLine stdin env line s = .ok () t) : stdin.view t = rest := by
  obtain ⟨_, u, prompted, later⟩ := Prog.bind_eq_ok run
  obtain ⟨_, v, taken, executed⟩ := Prog.bind_eq_ok later
  have first := keeps.writeStdout prompt s
  have last := executePipeline_within keeps line v
  rw [prompted] at first
  rw [executed] at last
  cases taken
  have left : stdin.view t = (stdin.view u).drop (line.bytes.length + 1) := Eq.trans last (stdin.view_put _ _)
  rw [left, show stdin.view u = stdin.view s from first]
  generalize stdin.view s = input at ahead
  cases ahead <;> simp

/-- Behind the end of the input there are only prompts. -/
theorem shellLoop_prompts (keeps : env.Keeps (Kept stdin.view)) (reads : env.readLine = hostReadLine stdin)
    (ended : stdin.view s = []) (length : buf.length = inputSize) (more : Nat) :
    (shellLoop env more buf >>= fun _ => pure ()) s =
      Prog.forEach (fun _ => env.writeStdout prompt) (List.replicate more ()) s := by
  induction more generalizing s with
  | zero => rfl
  | succ more ih =>
    rw [shellLoop, shellRound, List.replicate_succ, Prog.forEach, ← Prog.bind_assoc, ← Prog.bind_assoc]
    refine Prog.bind_congr fun _ u run => ?_
    have ended' : stdin.view u = [] := by
      have kept := keeps.writeStdout prompt s
      rw [run] at kept
      exact Eq.trans kept ended
    have same : stdin.put [] u = u := by rw [← ended', stdin.put_view]
    have read : env.readLine buf u = .ok (.error .ioError, buf) u := by
      rw [reads, hostReadLine, ended', hostReadLoop, if_pos (by rw [length]; decide), if_neg (lt_irrefl 0)]
      dsimp only
      rw [same]
    rw [← Prog.bind_assoc, Prog.bind_ok read]
    exact ih ended'

/-- A line is ahead of what is done `later`. -/
theorem shellLoop_ahead (keeps : env.Keeps (Kept stdin.view)) (reads : env.readLine = hostReadLine stdin)
    (ahead : Ahead line (stdin.view s) rest) (fits : ShortLine line) (length : buf.length = inputSize)
    {rounds : Nat} {later : ShM σ Unit}
    (goesOn : ∀ {t buf'}, stdin.view t = rest → buf'.length = inputSize →
      (shellLoop env rounds buf' >>= fun _ => pure ()) t = later t) :
    (shellLoop env (rounds + 1) buf >>= fun _ => pure ()) s = (promptedLine stdin env line >>= fun _ => later) s := by
  obtain ⟨buf', length', round⟩ := shellRound_ahead keeps reads ahead fits length
  rw [shellLoop, ← Prog.bind_assoc, Prog.bind_apply, round, ← Prog.bind_apply, ← Prog.bind_assoc]
  exact Prog.bind_congr fun _ t run => goesOn (promptedLine_input keeps ahead run) length'

/-- The loop on an input that has the parts of a script. -/
theorem shellLoop_parts (keeps : env.Keeps (Kept stdin.view)) (reads : env.readLine = hostReadLine stdin)
    {parts : List Text} (fits : ∀ part ∈ parts, ShortLine part)
    (input : stdin.view s = [lineFeed].intercalate (parts.map Text.bytes)) (length : buf.length = inputSize)
    (more : Nat) :
    (shellLoop env ((dropBlankEnd parts).length + more) buf >>= fun _ => pure ()) s = (do
      Prog.forEach (promptedLine stdin env) (dropBlankEnd parts)
      Prog.forEach (fun _ => env.writeStdout prompt) (List.replicate more ())) s := by
  induction parts generalizing buf s with
  | nil =>
    rw [dropBlankEnd, List.length_nil, Nat.zero_add]
    exact shellLoop_prompts keeps reads input length more
  | cons part parts ih =>
    obtain ⟨first, others⟩ := List.forall_mem_cons.mp fits
    cases parts with
    | nil =>
      rw [List.map_singleton, List.intercalate_singleton] at input
      rw [dropBlankEnd]
      split_ifs with blank
      · rw [blank] at input
        rw [List.length_nil, Nat.zero_add]
        exact shellLoop_prompts keeps reads input length more
      · have ahead : Ahead part (stdin.view s) [] := input ▸ .last blank
        have alone : Prog.forEach (promptedLine stdin env) [part] = promptedLine stdin env part :=
          Prog.bind_pure_unit _
        rw [List.length_singleton, Nat.add_comm, alone]
        exact shellLoop_ahead keeps reads ahead first length fun ended length' =>
          shellLoop_prompts keeps reads ended length' more
    | cons next parts =>
      have ahead : Ahead part (stdin.view s) ([lineFeed].intercalate ((next :: parts).map Text.bytes)) := by
        rw [input, List.map_cons, List.map_cons, List.intercalate_cons_cons, List.append_assoc, List.singleton_append]
        exact .line _
      have rounds : (dropBlankEnd (part :: next :: parts)).length + more =
          (dropBlankEnd (next :: parts)).length + more + 1 := by
        rw [dropBlankEnd, List.length_cons]
        omega
      rw [rounds, dropBlankEnd, Prog.forEach_cons]
      exact (shellLoop_ahead keeps reads ahead first length fun left length' => ih others left length').trans
        (congrFun (Prog.bind_assoc _ _ _) s)

end Rounds

/-- The relation holds of every call that a line can make. -/
structure HostSystem.Keeps {σ : Type} (sys : HostSystem σ) (R : σ → σ → Prop) : Prop where
  writeStdout : ∀ data, Prog.Within R (sys.writeStdout data)
  writeStderr : ∀ data, Prog.Within R (sys.writeStderr data)
  currentDir : Prog.Within R sys.currentDir
  setCurrentDir : ∀ path, Prog.Within R (sys.setCurrentDir path)
  setVar : ∀ key value, Prog.Within R (sys.setVar key value)
  vars : Prog.Within R sys.vars
  spawn : ∀ cmd args, Prog.Within R (sys.spawn cmd args)

section Equivalence

variable {σ : Type} {stdin : Part σ (List UInt8)} {sys : HostSystem σ}

theorem hostGetcwd_within {R : σ → σ → Prop} [Std.Refl R] [IsTrans σ R] (keeps : sys.Keeps R) (buf : List UInt8) :
    Prog.Within R (hostGetcwd sys buf) := by
  refine keeps.currentDir.bind fun r => ?_
  cases r with
  | ok path =>
    dsimp only
    split_ifs
    · exact .pure _
    · exact .pure _
  | error e => exact .pure _

theorem printVar_within {R : σ → σ → Prop} [Std.Refl R] [IsTrans σ R] (keeps : sys.Keeps R)
    (var : List UInt8 × List UInt8) : Prog.Within R (printVar sys var) := by
  unfold printVar
  split
  · exact (keeps.writeStdout _).bind fun _ => (keeps.writeStdout _).bind fun _ =>
      (keeps.writeStdout _).bind fun _ => keeps.writeStdout _
  · exact .fault

theorem hostEnv_keeps (keeps : sys.Keeps (Kept stdin.view)) : (hostEnv stdin sys).Keeps (Kept stdin.view) where
  writeStdout := keeps.writeStdout
  writeStderr := keeps.writeStderr
  getcwd := hostGetcwd_within keeps
  chdir := keeps.setCurrentDir
  setEnv key value := by
    unfold hostEnv
    dsimp only
    split_ifs
    · exact .fault
    · exact (keeps.setVar key value).bind fun _ => .pure _
  printEnvs := keeps.vars.bind fun vars => .forEach fun var _ => printVar_within keeps var
  spawn cmd args := (keeps.spawn cmd args).bind fun _ => .pure _
  wait _ := .pure _
  yieldCpu := .pure _
  openFile _ _ := .pure _
  write _ _ := .pure _
  close _ := .pure _
  exit _ := .throw _

theorem intercalate_parts (script : Text) :
    [lineFeed].intercalate ((script.splitOn '\n').map Text.bytes) = script.bytes := by
  have split := feed_marks.bytes_splitOnP script
  rw [List.splitOn_eq_splitOnP, ← split]
  exact List.intercalate_splitOn lineFeed

theorem forEach_dropBlankEnd {env : Environment σ} (parts : List Text) :
    Prog.forEach (executePipeline env) (dropBlankEnd parts) = Prog.forEach (executePipeline env) parts := by
  induction parts with
  | nil => rfl
  | cons part parts ih =>
    cases parts with
    | nil =>
      rw [dropBlankEnd]
      split_ifs with blank
      · rw [blank]
        rfl
      · rfl
    | cons next parts =>
      rw [dropBlankEnd, Prog.forEach_cons, ih]
      rfl

/-- `osh script` and `osh < script`. Both execute the lines of the script in order; the interactive shell writes its
prompt before each of them, and behind the end of the input it goes on with nothing but prompts. -/
theorem script_like_stdin (keeps : sys.Keeps (Kept stdin.view)) {script path : Text}
    (short : ∀ line ∈ script.splitOn '\n', (Text.bytes line).length < inputSize) {s t u : σ} {count : Nat} {buf : List UInt8}
    (read : sys.readFile path scriptSize s = .ok (.ok count, buf) t) (within : count ≤ buf.length)
    (holds : buf.take count = script.bytes) (input : stdin.view u = script.bytes) (more : Nat) :
    let env := hostEnv stdin sys
    runScript env path s = Prog.forEach (executePipeline env) (scriptLines script) t ∧
      (runShell env ((scriptLines script).length + more) >>= fun _ => pure ()) u = (do
        clearScreen env
        Prog.forEach (promptedLine stdin env) (scriptLines script)
        Prog.forEach (fun _ => env.writeStdout prompt) (List.replicate more ())) u := by
  have keeps' := hostEnv_keeps keeps
  have fits : ∀ part ∈ script.splitOn '\n', ShortLine part := by
    intro part mem
    have mem' : part ∈ script.splitOnP (· == '\n') := by rwa [← List.splitOn_eq_splitOnP]
    exact ⟨feed_marks.unmarked_parts mem', short part mem⟩
  constructor
  · rw [scriptLines, forEach_dropBlankEnd]
    exact runScript_lines read within holds
  · rw [runShell, ← Prog.bind_assoc]
    refine Prog.bind_congr fun _ v run => ?_
    have kept := clearScreen_within keeps' u
    rw [run] at kept
    have input' : stdin.view v = [lineFeed].intercalate ((script.splitOn '\n').map Text.bytes) := by
      rw [intercalate_parts, ← input]
      exact kept
    exact shellLoop_parts keeps' rfl fits input' List.length_replicate more

end Equivalence

/-- The whole state is the standard input. -/
def onlyStdin : Part (List UInt8) (List UInt8) := ⟨id, fun input _ => input, fun _ _ => rfl, fun _ => rfl⟩

def twoLines : Text := "pwd\n# end".toList

/-- A host whose only file is the script of two lines. -/
def scriptSystem : HostSystem (List UInt8) where
  writeStdout _ := pure ()
  writeStderr _ := pure ()
  currentDir := pure (.ok "/home".toList)
  setCurrentDir _ := pure (.error .pathNotFound)
  setVar _ _ := pure ()
  vars := pure []
  spawn _ _ := pure (.error ())
  readFile _ size := pure (.ok twoLines.bytes.length, twoLines.bytes ++ List.replicate (size - twoLines.bytes.length) 0)

theorem script_like_stdin_pwd : let env := hostEnv onlyStdin scriptSystem
    runScript env "run.sh".toList [] = Prog.forEach (executePipeline env) (scriptLines twoLines) [] ∧
      (runShell env ((scriptLines twoLines).length + 1) >>= fun _ => pure ()) twoLines.bytes = (do
        clearScreen env
        Prog.forEach (promptedLine onlyStdin env) (scriptLines twoLines)
        Prog.forEach (fun _ => env.writeStdout prompt) (List.replicate 1 ())) twoLines.bytes :=
  have keeps : scriptSystem.Keeps (Kept onlyStdin.view) :=
    ⟨fun _ => .pure _, fun _ => .pure _, .pure _, fun _ => .pure _, fun _ _ => .pure _, .pure _, fun _ _ => .pure _⟩
  have short : ∀ line ∈ twoLines.splitOn '\n', (Text.bytes line).length < inputSize := by decide
  have read : scriptSystem.readFile "run.sh".toList scriptSize [] = .ok (.ok twoLines.bytes.length,
      twoLines.bytes ++ List.replicate (scriptSize - twoLines.bytes.length) 0) [] := rfl
  have within : twoLines.bytes.length ≤
      (twoLines.bytes ++ List.replicate (scriptSize - twoLines.bytes.length) (0 : UInt8)).length := by
    rw [List.length_append]
    exact Nat.le_add_right _ _
  script_like_stdin keeps short read within List.take_left rfl 1

end CapsuleOS.Osh
