import CapsuleOS.Lib.Total
import CapsuleOS.Osh.Scripts

/-!
# Panics of the shell

The shell cuts texts and buffers at positions that it computes or that it is told, indexes its arrays of stages,
arguments and digits, and its environments fill arrays and buffers of their own. None of this panics, whatever is
typed and whatever is in a script, with one exception: on a host, `export` hands its argument to `set_var`, which
panics at a NUL. What the shell is built on is assumed not to panic (`CapsuleSystem.Sound`, `HostSystem.Sound`).
-/
namespace CapsuleOS.Osh

open Lib

/-- The buffer is as long as before, and the bytes that are told have been read. -/
def Told {ε : Type} (read : UInt8 → Prop) (length : Nat) (r : Except ε Nat × List UInt8) : Prop :=
  r.2.length = length ∧ ∀ n, r.1 = .ok n → n ≤ length ∧ ∀ b ∈ r.2.take n, read b

section Told

variable {ε : Type} {read : UInt8 → Prop} {length : Nat} {buf : List UInt8}

theorem Told.ok {n : Nat} (same : buf.length = length) (within : n ≤ length) (all : ∀ b ∈ buf.take n, read b) :
    Told read length ((.ok n : Except ε Nat), buf) := by
  refine ⟨same, fun m told => ?_⟩
  cases told
  exact ⟨within, all⟩

theorem Told.error (e : ε) (same : buf.length = length) : Told read length (.error e, buf) :=
  ⟨same, fun _ told => by cases told⟩

/-- A buffer of which nothing but the length matters. -/
theorem Told.any {n : Nat} (same : buf.length = length) (within : n ≤ length) :
    Told (fun _ => True) length ((.ok n : Except ε Nat), buf) := .ok same within fun _ _ => trivial

end Told

/-- The calls do not fault from a state in `I`, and all bytes that they read are in `read`. -/
structure Environment.Sound {σ : Type} (env : Environment σ) (I : σ → Prop) (read : UInt8 → Prop) : Prop where
  writeStdout : ∀ data, Prog.Safe I (env.writeStdout data) fun _ => True
  writeStderr : ∀ data, Prog.Safe I (env.writeStderr data) fun _ => True
  readLine : ∀ buf, Prog.Safe I (env.readLine buf) (Told read buf.length)
  getcwd : ∀ buf : List UInt8, Libstd.vecCapacity ≤ buf.length →
    Prog.Safe I (env.getcwd buf) (Told (fun _ => True) buf.length)
  chdir : ∀ path, Prog.Safe I (env.chdir path) fun _ => True
  setEnv : ∀ key value : Text, key ≠ [] → '=' ∉ key → (∀ b ∈ key.bytes, read b) → (∀ b ∈ value.bytes, read b) →
    Prog.Safe I (env.setEnv key value) fun _ => True
  printEnvs : Prog.Safe I env.printEnvs fun _ => True
  spawn : ∀ name args, Prog.Safe I (env.spawn name args) fun _ => True
  wait : ∀ pid, Prog.Safe I (env.wait pid) fun _ => True
  yieldCpu : Prog.Safe I env.yieldCpu fun _ => True
  openFile : ∀ path flags, Prog.Safe I (env.openFile path flags) fun _ => True
  write : ∀ fd data, Prog.Safe I (env.write fd data) fun _ => True
  close : ∀ fd, Prog.Safe I (env.close fd) fun _ => True
  readFile : ∀ path size, Prog.Safe I (env.readFile path size) (Told read size)
  exit : ∀ code, Prog.Safe I (env.exit code) fun _ => True

/-! ## Numbers -/

theorem digitLoop_length (v : Nat) (buf : List UInt8) (i : Nat) : (digitLoop v buf i).1.length = buf.length := by
  fun_induction digitLoop v buf i with
  | case1 v buf i more ih => exact ih.trans List.length_set
  | case2 v buf i last => rfl

theorem le_digitLoop (v : Nat) (buf : List UInt8) (i : Nat) : i ≤ (digitLoop v buf i).2 := by
  fun_induction digitLoop v buf i with
  | case1 v buf i more ih => exact Nat.le_of_succ_le ih
  | case2 v buf i last => exact le_rfl

theorem digitLoop_le {v i : Nat} {buf : List UInt8} (inside : i ≤ buf.length) : (digitLoop v buf i).2 ≤ buf.length := by
  fun_induction digitLoop v buf i with
  | case1 v buf i more ih =>
    have length : (buf.set i (UInt8.ofNat (48 + v % 10))).length = buf.length := List.length_set
    rw [length] at ih
    exact ih more.2
  | case2 v buf i last => exact inside

/-- Both indices stay inside the buffer: they meet before `hi` goes below zero. -/
theorem swapLoop_some {buf : List UInt8} {lo : Nat} {hi : Int} (low : 0 ≤ hi) (inside : hi < buf.length)
    (small : hi < 2 ^ 64) : ∃ buf', swapLoop buf lo hi = some buf' ∧ buf'.length = buf.length := by
  fun_induction swapLoop buf lo hi with
  | case1 buf lo hi top between t u at_lo at_hi ih =>
    have length : ((buf.set lo u).set top t).length = buf.length := by rw [List.length_set, List.length_set]
    have next : 0 ≤ hi - 1 := by omega
    obtain ⟨buf', run, length'⟩ := ih next (by rw [length]; omega) (by omega)
    exact ⟨buf', run, length'.trans length⟩
  | case2 buf lo hi top between absent =>
    obtain ⟨t, first⟩ : ∃ t, buf[lo]? = some t := ⟨_, List.getElem?_eq_getElem (by omega)⟩
    obtain ⟨u, second⟩ : ∃ u, buf[top]? = some u := ⟨_, List.getElem?_eq_getElem (by omega)⟩
    exact (absent t u first second).elim
  | case3 buf lo hi top last => exact ⟨buf, rfl, rfl⟩

theorem formatU32_some (v : Nat) {buf : List UInt8} (room : 0 < buf.length) (small : buf.length < 2 ^ 64) :
    ∃ digits, formatU32 v buf = some digits := by
  unfold formatU32
  split_ifs with zero
  · exact ⟨_, rfl⟩
  · have length := digitLoop_length v buf 0
    have le := @digitLoop_le v 0 buf (Nat.zero_le _)
    have first : 0 < (digitLoop v buf 0).2 := by
      rw [digitLoop, if_pos ⟨Nat.pos_of_ne_zero zero, room⟩]
      exact le_digitLoop _ _ _
    obtain ⟨buf', swapped, length'⟩ :=
      @swapLoop_some (digitLoop v buf 0).1 0 ((digitLoop v buf 0).2 - 1) (by omega) (by omega) (by omega)
    refine ⟨buf'.take (digitLoop v buf 0).2, ?_⟩
    dsimp only
    rw [swapped, Option.bind_eq_bind, Option.bind_some, if_pos (by omega)]
    rfl

section Lines

variable {σ : Type} {env : Environment σ} {I : σ → Prop} {read : UInt8 → Prop} (k : env.Sound I read)

include k

theorem cd_safe (cmd : Command) : Prog.Safe I (Builtins.cd env cmd) fun _ => True := by
  unfold Builtins.cd
  split_ifs
  · refine (k.chdir _).bind fun r _ => ?_
    split
    · exact .pure trivial
    · exact (k.writeStderr _).bind fun _ _ => (k.writeStderr _).bind fun _ _ => k.writeStderr _
    · exact k.writeStderr _
    · exact k.writeStderr _
  · exact k.writeStderr _

theorem pwd_safe : Prog.Safe I (Builtins.pwd env) fun _ => True := by
  have long : Libstd.vecCapacity ≤ (List.replicate 512 (0 : UInt8)).length := by
    rw [List.length_replicate]
    decide
  refine (k.getcwd _ long).bind fun r told => ?_
  obtain ⟨len, buf⟩ := r
  cases len with
  | ok len =>
    have within : len ≤ buf.length := told.1 ▸ (told.2 len rfl).1
    dsimp only
    rw [if_pos within]
    exact (k.writeStdout _).bind fun _ _ => k.writeStdout _
  | error e => exact k.writeStderr _

omit k in
theorem argList_safe {cmd : Command} (within : cmd.argCount ≤ maxArgs) :
    Prog.Safe I (Builtins.argList cmd : ShM σ _) fun _ => True := by
  rw [Builtins.argList, if_pos within]
  exact .pure trivial

theorem echoLoop_safe (args : List Text) : Prog.Safe I (Builtins.echoLoop env args) fun _ => True := by
  induction args with
  | nil => exact .pure trivial
  | cons arg args ih => exact (k.writeStdout _).bind fun _ _ => (k.writeStdout _).bind fun _ _ => ih

theorem echo_safe {cmd : Command} (within : cmd.argCount ≤ maxArgs) :
    Prog.Safe I (Builtins.echo env cmd) fun _ => True := by
  refine (argList_safe within).bind fun args _ => ?_
  cases args with
  | nil => exact k.writeStdout _
  | cons arg args =>
    exact (k.writeStdout _).bind fun _ _ => (echoLoop_safe k args).bind fun _ _ => k.writeStdout _

/-- The arguments are within their array, and all that is in it has been read. -/
structure Command.Bounded (cmd : Command) (read : UInt8 → Prop) : Prop where
  argCount : cmd.argCount ≤ maxArgs
  args : ∀ i, ∀ b ∈ (cmd.args i).bytes, read b

/-- The argument is cut on both sides of its first equals sign, which is a character of one byte. -/
theorem export_safe {cmd : Command} (bounded : cmd.Bounded read) :
    Prog.Safe I (Builtins.export_ env cmd) fun _ => True := by
  unfold Builtins.export_
  split_ifs
  · exact k.writeStderr _
  · have all := bounded.args ⟨0, by decide⟩
    dsimp only
    generalize cmd.args ⟨0, by decide⟩ = arg at all
    cases found : arg.find '=' with
    | none => exact k.writeStderr _
    | some pos =>
      obtain ⟨key, val, rfl, first, rfl⟩ := Text.find_some found
      have front : (key ++ '=' :: val).slice 0 key.bytes.length = some key := @Text.slice_append [] key ('=' :: val)
      have position : key.bytes.length + 1 = (Text.bytes (key ++ ['='])).length := by
        rw [Text.bytes_append, List.length_append]
        rfl
      have behind : (key ++ '=' :: val).sliceFrom (key.bytes.length + 1) = some val := by
        rw [position, List.append_cons]
        exact Text.sliceFrom_append
      have in_key : ∀ b ∈ key.bytes, read b := fun b mem =>
        all b (Text.bytes_subset (List.subset_append_left _ _) mem)
      have in_val : ∀ b ∈ Text.bytes val, read b := fun b mem =>
        all b (Text.bytes_subset (List.subset_append_of_subset_right _ (List.subset_cons_self _ _)) mem)
      dsimp only
      rw [front, behind]
      dsimp only
      split_ifs with empty
      · exact k.writeStderr _
      · exact (k.setEnv key val empty first in_key in_val).bind fun _ _ => .pure trivial

theorem type_safe (cmd : Command) : Prog.Safe I (Builtins.type_ env cmd) fun _ => True := by
  unfold Builtins.type_
  split_ifs
  · exact k.writeStderr _
  · exact (k.writeStdout _).bind fun _ _ => k.writeStdout _

theorem executeBuiltin_safe {cmd : Command} (bounded : cmd.Bounded read) :
    Prog.Safe I (executeBuiltin env cmd) fun _ => True := by
  have done : ∀ {m : ShM σ Unit}, Prog.Safe I m (fun _ => True) →
      Prog.Safe I (do m; return true) fun _ => True :=
    fun h => h.bind fun _ _ => .pure trivial
  unfold executeBuiltin
  split_ifs
  · exact done (cd_safe k cmd)
  · exact done (pwd_safe k)
  · exact done (echo_safe k bounded.argCount)
  · exact done (export_safe k bounded)
  · exact done k.printEnvs
  · exact done (type_safe k cmd)
  · exact done (Prog.Safe.forEach fun line _ => k.writeStdout _)
  · exact done ((k.writeStdout _).bind fun _ _ => (k.exit _).bind nofun)
  · exact done (k.writeStdout _)
  · exact .pure trivial

theorem spawnStage_safe (i : Nat) {cmd : Command} (within : cmd.argCount ≤ maxArgs) :
    Prog.Safe I (spawnStage env i cmd) fun _ => True := by
  refine (argList_safe within).bind fun args _ => (k.spawn _ _).bind fun r _ => ?_
  cases r with
  | error e =>
    exact (k.writeStderr _).bind fun _ _ => (k.writeStderr _).bind fun _ _ => (k.writeStderr _).bind fun _ _ =>
      .pure trivial
  | ok pid =>
    obtain ⟨digits, format⟩ := @formatU32_some (i % 2 ^ 32) (List.replicate 16 0) (by decide) (by decide)
    refine (k.writeStderr _).bind fun _ _ => ?_
    rw [format]
    exact (k.writeStderr _).bind fun _ _ => (k.writeStderr _).bind fun _ _ => (k.writeStderr _).bind fun _ _ =>
      (k.writeStderr _).bind fun _ _ => .pure trivial

/-- The stages are within the array, and their arguments within theirs. -/
structure Pipeline.Bounded (p : Pipeline) (read : UInt8 → Prop) : Prop where
  stageCount : p.stageCount ≤ maxStages
  stages : ∀ i, (p.stages i).Bounded read

omit k in
theorem CommandOf.bounded {part : Text} {cmd : Command} (h : CommandOf part cmd) (all : ∀ b ∈ part.bytes, read b) :
    cmd.Bounded read := by
  refine ⟨h.argCount.trans_le (min_le_left _ _), fun i b mem => ?_⟩
  by_cases used : i.val < cmd.argCount
  · have word := (List.mem_filter.mp (List.mem_of_getElem? (h.args i used))).1
    exact all b (Text.subset_of_mem_splitOnP word mem)
  · rw [h.unused i (not_lt.mp used)] at mem
    cases mem

omit k in
theorem PipelineOf.bounded {stages : List Text} {p : Pipeline} (h : PipelineOf stages p)
    (all : ∀ stage ∈ stages, ∀ b ∈ stage.bytes, read b) : p.Bounded read := by
  refine ⟨h.stageCount.trans_le (min_le_left _ _), fun i => ?_⟩
  by_cases used : i.val < stages.length
  · exact (h.commands i used).bounded (all _ (List.getElem_mem used))
  · rw [h.unused i (not_lt.mp used)]
    exact ⟨Nat.zero_le _, fun _ _ mem => by cases mem⟩

omit k in
/-- The parser returns a pipeline that is within its arrays. -/
theorem parseLine_bounded {line : Text} (all : ∀ b ∈ line.bytes, read b) :
    ∃ result, parseLine line = some result ∧ ∀ p, result = some p → p.Bounded read := by
  by_cases blank : trim line = []
  · exact ⟨none, by rw [parseLine, if_pos blank], fun p found => by cases found⟩
  · obtain ⟨p, added, holds⟩ := empty_pipelineOf.addAll ((trim line).splitOnP (· == '|'))
    refine ⟨if p.stageCount = 0 then none else some p, ?_, fun p' found => ?_⟩
    · rw [parseLine_eq blank, added]
      rfl
    · split_ifs at found
      cases found
      refine holds.bounded fun stage mem b mem_b => ?_
      obtain ⟨part, part_mem, rfl⟩ := List.mem_map.mp (List.mem_filter.mp mem).1
      have part_subset : part ⊆ trim line := Text.subset_of_mem_splitOnP part_mem
      have subset : trim part ⊆ line := fun c mem_c =>
        Text.trim_subset _ line (part_subset (Text.trim_subset _ part mem_c))
      exact all b (Text.bytes_subset subset mem_b)

theorem pipelineLoop_safe {p : Pipeline} (bounded : p.Bounded read) (rounds i : Nat) (within : i + rounds ≤ maxStages) :
    Prog.Safe I (pipelineLoop env p rounds i) fun _ => True := by
  induction rounds generalizing i with
  | zero => exact k.yieldCpu
  | succ rounds ih =>
    have inside : i < maxStages := by omega
    rw [pipelineLoop, dif_pos inside]
    refine (spawnStage_safe k i (bounded.stages _).argCount).bind fun goesOn _ => ?_
    cases goesOn with
    | true => exact ih (i + 1) (by omega)
    | false => exact .pure trivial

theorem runCommand_safe {cmd : Command} (bounded : cmd.Bounded read) :
    Prog.Safe I (runCommand env cmd) fun _ => True := by
  refine (executeBuiltin_safe k bounded).bind fun builtin _ => ?_
  cases builtin with
  | true => exact .pure trivial
  | false =>
    refine (argList_safe bounded.argCount).bind fun args _ => (k.spawn _ _).bind fun r _ => ?_
    cases r with
    | ok pid => exact (k.wait _).bind fun _ _ => .pure trivial
    | error e => exact (k.writeStderr _).bind fun _ _ => (k.writeStderr _).bind fun _ _ => k.writeStderr _

theorem executePipeline_safe {line : Text} (all : ∀ b ∈ line.bytes, read b) :
    Prog.Safe I (executePipeline env line) fun _ => True := by
  have ended : line.rdropWhile isLineEnd ⊆ line := (List.rdropWhile_prefix _ _).subset
  obtain ⟨result, parsed, bounded⟩ :=
    @parseLine_bounded read (line.rdropWhile isLineEnd) fun b mem => all b (Text.bytes_subset ended mem)
  rw [executePipeline]
  split_ifs
  · exact .pure trivial
  · rw [parsed]
    cases result with
    | none => exact .pure trivial
    | some p =>
      have within := bounded p rfl
      dsimp only
      split_ifs
      · exact .pure trivial
      · exact runCommand_safe k (within.stages _)
      · exact pipelineLoop_safe k within _ 0 (by simpa using within.stageCount)

theorem executeBytes_safe {bytes : List UInt8} (all : ∀ b ∈ bytes, read b) :
    Prog.Safe I (executeBytes env bytes) fun _ => True := by
  unfold executeBytes
  split
  · rename_i line text
    exact executePipeline_safe k (bytes_of_textOf text ▸ all)
  · exact k.writeStderr _

/-- The buffer of the loop keeps its length. -/
theorem shellLoop_safe (rounds : Nat) {buf : List UInt8} (length : buf.length = inputSize) :
    Prog.Safe I (shellLoop env rounds buf) fun buf' => buf'.length = inputSize := by
  induction rounds generalizing buf with
  | zero => exact .pure length
  | succ rounds ih =>
    have round : Prog.Safe I (shellRound env buf) fun buf' => buf'.length = inputSize := by
      refine (k.writeStdout _).bind fun _ _ => (k.readLine buf).bind fun r told => ?_
      obtain ⟨count, buf'⟩ := r
      have length' : buf'.length = inputSize := told.1.trans length
      cases count with
      | ok total =>
        obtain ⟨within, all⟩ := told.2 total rfl
        rw [length, ← length'] at within
        dsimp only
        split_ifs
        · exact (executeBytes_safe k all).bind fun _ _ => .pure length'
        · exact .pure length'
      | error e => exact .pure length'
    exact round.bind fun _ length' => ih length'

theorem runShell_safe (rounds : Nat) : Prog.Safe I (runShell env rounds) fun buf => buf.length = inputSize := by
  have cleared : Prog.Safe I (clearScreen env) fun _ => True := by
    refine (k.openFile _ _).bind fun r _ => ?_
    cases r with
    | ok ttyFd => exact (k.write _ _).bind fun _ _ => k.close _
    | error e => exact .pure trivial
  exact cleared.bind fun _ _ => shellLoop_safe k rounds List.length_replicate

/-- The scan of a script only cuts it at line feeds. -/
theorem runScript_safe (path : Text) : Prog.Safe I (runScript env path) fun _ => True := by
  refine (k.readFile path scriptSize).bind fun r told => ?_
  obtain ⟨count, buf⟩ := r
  cases count with
  | error e => exact (k.writeStderr _).bind fun _ _ => (k.writeStderr _).bind fun _ _ => k.writeStderr _
  | ok count =>
    obtain ⟨within, all⟩ := told.2 count rfl
    rw [← told.1] at within
    dsimp only
    rw [if_pos within]
    split
    · exact k.writeStderr _
    · rename_i script text
      have lines : Prog.Safe I (Prog.forEach (executePipeline env) (script.splitOnP (· == '\n'))) fun _ => True := by
        refine .forEach fun line mem => executePipeline_safe k fun b mem_b => all b ?_
        rw [← bytes_of_textOf text]
        exact Text.bytes_subset (Text.subset_of_mem_splitOnP mem) mem_b
      have scan : (scriptLoop env script 0 script.bytes 0 >>= executeTail env script) =
          Prog.forEach (executePipeline env) (script.splitOnP (· == '\n')) := by
        funext s
        have scanned := @scriptLoop_eq _ env [] [] script s
        rwa [Text.modifyHead_nil] at scanned
      exact scan ▸ lines

end Lines

/-! ## Capsule OS -/

/-- What libc, libcapsule and libstd promise: no panic, and not more bytes than the buffer has. -/
structure CapsuleSystem.Sound {σ : Type} (sys : CapsuleSystem σ) (I : σ → Prop) : Prop where
  getcwd : ∀ buf, Prog.Safe I (sys.getcwd buf) (Told (fun _ => True) buf.length)
  setCurrentDir : ∀ path, Prog.Safe I (sys.setCurrentDir path) fun _ => True
  spawn : ∀ cmd argv, Prog.Safe I (sys.spawn cmd argv) fun _ => True
  wait : ∀ pid, Prog.Safe I (sys.wait pid) fun _ => True
  yieldNow : Prog.Safe I sys.yieldNow fun _ => True
  openFile : ∀ path, Prog.Safe I (sys.openFile path) fun _ => True
  write : ∀ fd data, Prog.Safe I (sys.write fd data) fun _ => True
  close : ∀ fd, Prog.Safe I (sys.close fd) fun _ => True

/-- The environment with a way to leave. -/
def Environment.leaving {σ : Type} (env : Environment σ) : Environment σ :=
  { env with exit := fun code => Prog.throw (.exited code) }

theorem argvLoop_some (args : List Text) {i : Nat} {argv : List (List UInt8)} (length : argv.length = argvSize) :
    ∃ argv', argvLoop i args argv = some argv' ∧ argv'.length = argvSize := by
  induction args generalizing i argv with
  | nil => exact ⟨argv, rfl, length⟩
  | cons a args ih =>
    unfold argvLoop
    split_ifs with full inside
    · exact ⟨argv, rfl, length⟩
    · exact ih (List.length_set.trans length)
    · have size : argvSize = 16 := rfl
      omega

theorem argvOf_some (cmd : Text) (args : List Text) : ∃ argv, argvOf cmd args = some argv := by
  have length : ((List.replicate argvSize ([] : List UInt8)).set 0 cmd.bytes).length = argvSize := by
    rw [List.length_set, List.length_replicate]
  obtain ⟨argv, run, length'⟩ := @argvLoop_some args 0 _ length
  have size : argvSize = 16 := rfl
  refine ⟨argv.take (min (args.length + 1) 16), ?_⟩
  rw [argvOf, run, Option.bind_eq_bind, Option.bind_some, if_pos (by omega)]
  rfl

section Capsule

variable {σ : Type} {con : Part σ Console} {bufPtr : Nat} {sys : CapsuleSystem σ} {I : σ → Prop}

theorem readResult_told {cap total : Nat} {line typed input screen slice : List UInt8} {c : Console}
    (result : ReadResult cap line typed input screen (.returned total slice c)) :
    Told (fun _ => True) cap ((.ok total : Except ShellError Nat), slice) := by
  cases result with
  | line ends same length within took => exact .any length within
  | zero same length within took => exact .any length within
  | full plain key same length took => exact .any length le_rfl

/-- The console never tells more than there is room for. -/
theorem consoleReadLine_safe (shown : ∀ c s, I s → I (con.put c s)) (buf : List UInt8) :
    Prog.Safe I (consoleReadLine con bufPtr buf) (Told (fun _ => True) buf.length) := by
  intro s start
  have length : (buf.map fun _ => (0 : UInt8)).length = buf.length := List.length_map _
  unfold consoleReadLine
  generalize eq : (buf.map fun _ => (0 : UInt8)) = cleared at length
  dsimp only
  split_ifs with nothing
  · exact .of_ok ⟨_, s, rfl, .any length (Nat.zero_le _), start⟩
  · obtain ⟨valid, some_room⟩ := not_or.mp nothing
    obtain ⟨typed, -, result⟩ := sysRead_result valid (by simpa using some_room) (con.view s)
    cases ended : sysRead bufPtr cleared (con.view s) with
    | returned total slice c =>
      rw [ended] at result
      exact .of_ok ⟨_, _, by rw [ended, afterRead], length ▸ readResult_told result, shown c s start⟩
    | failed status => exact .of_ok ⟨_, s, by rw [ended, afterRead], .error _ length, start⟩
    | waits slice c => exact .of_err (by rw [ended, afterRead]) trivial
    | exits slice c => exact .of_err (by rw [ended, afterRead]) trivial

theorem currentDir_safe (sound : sys.Sound I) : Prog.Safe I (currentDir sys) fun _ => True := by
  refine (sound.getcwd _).bind fun r told => ?_
  obtain ⟨len, buf⟩ := r
  cases len with
  | ok len =>
    have within : len ≤ buf.length := told.1 ▸ (told.2 len rfl).1
    dsimp only
    rw [if_pos within]
    exact .pure trivial
  | error e => exact .pure trivial

/-- A string of libstd fits the buffer of `pwd`. -/
theorem capsuleGetcwd_safe (sound : sys.Sound I) {buf : List UInt8} (long : Libstd.vecCapacity ≤ buf.length) :
    Prog.Safe I ((capsuleEnv con bufPtr sys).getcwd buf) (Told (fun _ => True) buf.length) := by
  refine (currentDir_safe sound).bind fun r _ => ?_
  cases r with
  | ok s =>
    have fits : s.asBytes.length ≤ Libstd.vecCapacity := s.buf.fits
    exact .pure (.any rfl (fits.trans long))
  | error e => exact .pure (.error _ rfl)

theorem capsuleEnv_sound (shown : ∀ c s, I s → I (con.put c s)) (sound : sys.Sound I) :
    (capsuleEnv con bufPtr sys).leaving.Sound I fun _ => True := by
  have prints : ∀ data, Prog.Safe I (printBytes con data) fun _ => True := by
    intro data
    unfold printBytes
    split
    · exact .modify fun s start => shown _ s start
    · exact .pure trivial
  exact
    { writeStdout := prints
      writeStderr := prints
      readLine := consoleReadLine_safe shown
      getcwd := fun buf long => @capsuleGetcwd_safe σ con bufPtr sys I sound buf long
      chdir := fun path => (sound.setCurrentDir path).bind fun _ _ => .pure trivial
      setEnv := fun _ _ _ _ _ _ => .pure trivial
      printEnvs := .pure trivial
      spawn := by
        intro cmd args
        obtain ⟨argv, stored⟩ := argvOf_some cmd args
        have run : (capsuleEnv con bufPtr sys).leaving.spawn cmd args =
            (sys.spawn cmd argv >>= fun r => pure (r.mapError fun _ => .ioError)) := by
          simp only [capsuleEnv, Environment.leaving, stored]
        rw [run]
        exact (sound.spawn cmd argv).bind fun _ _ => .pure trivial
      wait := fun pid => (sound.wait pid).bind fun _ _ => .pure trivial
      yieldCpu := sound.yieldNow
      openFile := fun path _ => (sound.openFile path).bind fun _ _ => .pure trivial
      write := fun fd data => (sound.write fd data).bind fun _ _ => .pure trivial
      close := sound.close
      readFile := fun _ _ => .pure (.error _ List.length_replicate)
      exit := fun _ => .throw _ }

end Capsule

/-! ## A host -/

/-- No byte that is still to be read is a NUL. -/
def NulFree {σ : Type} (stdin : Part σ (List UInt8)) (s : σ) : Prop := ∀ b ∈ stdin.view s, b ≠ 0

/-- What the standard library promises on a host whose variables are Unicode and whose scripts have no NUL: no panic,
but for a variable that `set_var` does not take. -/
structure HostSystem.Sound {σ : Type} (sys : HostSystem σ) (stdin : Part σ (List UInt8)) : Prop where
  writeStdout : ∀ data, Prog.Safe (NulFree stdin) (sys.writeStdout data) fun _ => True
  writeStderr : ∀ data, Prog.Safe (NulFree stdin) (sys.writeStderr data) fun _ => True
  currentDir : Prog.Safe (NulFree stdin) sys.currentDir fun _ => True
  setCurrentDir : ∀ path, Prog.Safe (NulFree stdin) (sys.setCurrentDir path) fun _ => True
  setVar : ∀ key value, ¬BadVar key value → Prog.Safe (NulFree stdin) (sys.setVar key value) fun _ => True
  vars : Prog.Safe (NulFree stdin) sys.vars fun vars =>
    ∀ var ∈ vars, textOf var.1 ≠ none ∧ textOf var.2 ≠ none
  spawn : ∀ cmd args, Prog.Safe (NulFree stdin) (sys.spawn cmd args) fun _ => True
  readFile : ∀ path size, Prog.Safe (NulFree stdin) (sys.readFile path size) (Told (· ≠ 0) size)

/-- What is told is from the input, and what is left is from it too. -/
theorem hostReadLoop_told {read : UInt8 → Prop} {input buf : List UInt8} {bytesRead : Nat}
    (within : bytesRead ≤ buf.length) (got : ∀ b ∈ buf.take bytesRead, read b) (ahead : ∀ b ∈ input, read b) :
    Told read buf.length ((hostReadLoop input buf bytesRead).1, (hostReadLoop input buf bytesRead).2.1) ∧
      ∀ b ∈ (hostReadLoop input buf bytesRead).2.2, read b := by
  have nothing : ∀ b ∈ ([] : List UInt8), read b := fun b mem => by cases mem
  induction input generalizing buf bytesRead with
  | nil =>
    unfold hostReadLoop
    split_ifs
    · exact ⟨.ok rfl within got, nothing⟩
    · exact ⟨.error _ rfl, nothing⟩
    · exact ⟨.ok rfl within got, nothing⟩
  | cons c input ih =>
    obtain ⟨first, later⟩ := List.forall_mem_cons.mp ahead
    have length : (buf.set bytesRead c).length = buf.length := List.length_set
    have got' : bytesRead < buf.length → ∀ b ∈ (buf.set bytesRead c).take (bytesRead + 1), read b := by
      intro room b mem
      rw [take_set room] at mem
      rcases List.mem_append.mp mem with old | new
      · exact got b old
      · exact List.mem_singleton.mp new ▸ first
    unfold hostReadLoop
    split_ifs with room
    · exact ⟨.ok length room (got' room), later⟩
    · have rest := @ih (buf.set bytesRead c) (bytesRead + 1) (by omega) (got' room) later
      exact length ▸ rest
    · exact ⟨.ok rfl within got, ahead⟩

section Host

variable {σ : Type} {stdin : Part σ (List UInt8)} {sys : HostSystem σ}

theorem hostReadLine_safe (buf : List UInt8) :
    Prog.Safe (NulFree stdin) (hostReadLine stdin buf) (Told (· ≠ 0) buf.length) := by
  intro s clean
  obtain ⟨told, left⟩ := @hostReadLoop_told (· ≠ 0) (stdin.view s) buf 0 (Nat.zero_le _) (by simp) clean
  refine .of_ok ⟨_, _, rfl, told, ?_⟩
  rw [NulFree, stdin.view_put]
  exact left

theorem hostGetcwd_safe (sound : sys.Sound stdin) (buf : List UInt8) :
    Prog.Safe (NulFree stdin) (hostGetcwd sys buf) (Told (fun _ => True) buf.length) := by
  refine sound.currentDir.bind fun r _ => ?_
  cases r with
  | ok path =>
    dsimp only
    split_ifs with long
    · exact .pure (.error _ rfl)
    · have length : (path.bytes ++ buf.drop path.bytes.length).length = buf.length := by
        rw [List.length_append, List.length_drop]
        omega
      exact .pure (.any length (not_lt.mp long))
  | error e => exact .pure (.error _ rfl)

theorem nul_not_mem {t : Text} (clean : ∀ b ∈ t.bytes, b ≠ 0) : nul ∉ t := by
  intro mem
  have byte : (0 : UInt8) ∈ String.utf8EncodeChar nul := by decide
  exact clean 0 (List.mem_flatMap.mpr ⟨nul, mem, byte⟩) rfl

theorem hostEnv_sound (sound : sys.Sound stdin) : (hostEnv stdin sys).Sound (NulFree stdin) (· ≠ 0) where
  writeStdout := sound.writeStdout
  writeStderr := sound.writeStderr
  readLine := hostReadLine_safe
  getcwd buf _ := hostGetcwd_safe sound buf
  chdir := sound.setCurrentDir
  setEnv key value some_char first in_key in_value := by
    have good : ¬BadVar key value := by
      rintro (empty | equals | nul_key | nul_value)
      · exact some_char empty
      · exact first equals
      · exact nul_not_mem in_key nul_key
      · exact nul_not_mem in_value nul_value
    have run : (hostEnv stdin sys).setEnv key value = (sys.setVar key value >>= fun _ => pure (.ok ())) :=
      if_neg good
    rw [run]
    exact (sound.setVar key value good).bind fun _ _ => .pure trivial
  printEnvs := by
    refine sound.vars.bind fun vars unicode => .forEach fun var mem => ?_
    obtain ⟨key, val⟩ := unicode var mem
    unfold printVar
    split
    · exact (sound.writeStdout _).bind fun _ _ => (sound.writeStdout _).bind fun _ _ =>
        (sound.writeStdout _).bind fun _ _ => sound.writeStdout _
    · rename_i absent
      obtain ⟨k, some_key⟩ := Option.ne_none_iff_exists'.mp key
      obtain ⟨v, some_val⟩ := Option.ne_none_iff_exists'.mp val
      exact (absent k v some_key some_val).elim
  spawn cmd args := (sound.spawn cmd args).bind fun _ _ => .pure trivial
  wait _ := .pure trivial
  yieldCpu := .pure trivial
  openFile _ _ := .pure trivial
  write _ _ := .pure trivial
  close _ := .pure trivial
  readFile := sound.readFile
  exit _ := .throw _

end Host

/-! ## Both -/

/-- Neither shell panics, whatever it reads; on a host, as long as it reads no NUL. -/
theorem shell_never_panics {σ : Type} {con : Part σ Console} {stdin : Part σ (List UInt8)} {bufPtr : Nat}
    {sys : CapsuleSystem σ} {host : HostSystem σ} (promised : sys.Sound fun _ => True)
    (promised_host : host.Sound stdin) :
    let capsule := (capsuleEnv con bufPtr sys).leaving
    (∀ rounds s t, runShell capsule rounds s ≠ .fault t) ∧ (∀ path s t, runScript capsule path s ≠ .fault t) ∧
      ∀ s, NulFree stdin s → (∀ rounds t, runShell (hostEnv stdin host) rounds s ≠ .fault t) ∧
        ∀ path t, runScript (hostEnv stdin host) path s ≠ .fault t := by
  have k : (capsuleEnv con bufPtr sys).leaving.Sound (fun _ => True) fun _ => True :=
    capsuleEnv_sound (fun _ _ _ => trivial) promised
  have k_host := hostEnv_sound promised_host
  refine ⟨fun rounds s => ?_, fun path s => ?_, fun s clean => ⟨fun rounds => ?_, fun path => ?_⟩⟩
  · exact (runShell_safe k rounds).not_fault trivial
  · exact (runScript_safe k path).not_fault trivial
  · exact (runShell_safe k_host rounds).not_fault clean
  · exact (runScript_safe k_host path).not_fault clean

/-- What is going to be typed. -/
def typedInput : Part Console (List UInt8) :=
  ⟨Console.input, fun input c => { c with input := input }, fun _ _ => rfl, fun _ => rfl⟩

/-- A system at its root, in which every program and every file is found. -/
def rootSystem : CapsuleSystem Console where
  getcwd buf := pure (.ok (min 1 buf.length), buf.set 0 47)
  setCurrentDir _ := pure (.ok ())
  spawn _ _ := pure (.ok 7)
  wait _ := pure (.ok 0)
  yieldNow := pure ()
  openFile _ := pure (.ok 3)
  write _ data := pure (.ok data.length)
  close _ := pure ()

theorem rootSystem_sound : rootSystem.Sound fun _ => True where
  getcwd _ := .pure (.any List.length_set (min_le_right _ _))
  setCurrentDir _ := .pure trivial
  spawn _ _ := .pure trivial
  wait _ := .pure trivial
  yieldNow := .pure trivial
  openFile _ := .pure trivial
  write _ _ := .pure trivial
  close _ := .pure trivial

/-- A host with one variable. Its programs read what is left of the input, and each file is the script of two
lines. -/
def homeHost : HostSystem Console where
  writeStdout data := Prog.modify fun c => { c with screen := c.screen ++ data }
  writeStderr _ := pure ()
  currentDir := pure (.ok "/home".toList)
  setCurrentDir _ := pure (.ok ())
  setVar _ _ := pure ()
  vars := pure [(lit "HOME", lit "/home")]
  spawn _ _ := do
    Prog.modify fun c => { c with input := [] }
    return .ok 7
  readFile _ size :=
    let read := twoLines.bytes.take size
    pure (.ok read.length, read ++ List.replicate (size - read.length) 0)

theorem textOf_lit (s : String) : textOf (lit s) ≠ none := by
  rw [lit, textOf_bytes]
  exact Option.some_ne_none _

theorem homeHost_sound : homeHost.Sound typedInput where
  writeStdout data := .modify fun _ clean => clean
  writeStderr _ := .pure trivial
  currentDir := .pure trivial
  setCurrentDir _ := .pure trivial
  setVar _ _ _ := .pure trivial
  vars := by
    refine .pure fun var mem => ?_
    rw [List.mem_singleton.mp mem]
    exact ⟨textOf_lit _, textOf_lit _⟩
  spawn _ _ := (Prog.Safe.modify fun _ _ => List.forall_mem_nil _).bind fun _ _ => .pure trivial
  readFile _ size := by
    have short : (twoLines.bytes.take size).length ≤ size := List.length_take_le _ _
    have clean : (0 : UInt8) ∉ twoLines.bytes := by decide
    refine .pure (.ok ?_ short fun b mem => ?_)
    · rw [List.length_append, List.length_replicate]
      omega
    · rw [List.take_left] at mem
      rintro rfl
      exact clean (List.mem_of_mem_take mem)

theorem shell_never_panics_home : let capsule := (capsuleEnv onlyConsole 4096 rootSystem).leaving
    (∀ rounds s t, runShell capsule rounds s ≠ .fault t) ∧ (∀ path s t, runScript capsule path s ≠ .fault t) ∧
      ∀ s, NulFree typedInput s → (∀ rounds t, runShell (hostEnv typedInput homeHost) rounds s ≠ .fault t) ∧
        ∀ path t, runScript (hostEnv typedInput homeHost) path s ≠ .fault t :=
  shell_never_panics rootSystem_sound homeHost_sound

/-- The argument of `export` ends with a NUL. -/
example : (executePipeline (hostEnv typedInput homeHost) ("export A=".toList ++ [nul]) ⟨[], []⟩).faulted = true := by
  decide

end CapsuleOS.Osh
