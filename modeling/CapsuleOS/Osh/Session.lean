import CapsuleOS.Libstd.Args
import CapsuleOS.Osh.Shell
import CapsuleOS.Vfs.Console

/-!
# A session

On Capsule OS the shell reads from the console of the kernel. A session in which lines are typed executes
them one after the other, each as it was edited, and then waits; and a script executes its lines just as a
session in which they are typed. What is needed of the rest of the system is that nothing else takes bytes
from the console.
-/
namespace CapsuleOS.Osh

open Lib

/-- A part of a state. -/
structure Part (σ α : Type) where
  view : σ → α
  put : α → σ → σ
  view_put : ∀ a s, view (put a s) = a
  put_view : ∀ s, put (view s) s = s

/-- `sys_write`, which puts a carriage return before each line feed. -/
def sysWrite (data : List UInt8) (c : Console) : Console :=
  { c with screen := c.screen ++ data.flatMap fun b => if b = lineFeed then [13, b] else [b] }

/-- What `CapsuleEnv` calls that does not meet the console: libc's `getcwd`, libcapsule's `spawn` and for the rest
libstd. Of an error only that there is one matters. -/
structure CapsuleSystem (σ : Type) where
  getcwd : List UInt8 → ShM σ (Except Unit Nat × List UInt8)
  setCurrentDir : Text → ShM σ (Except Unit Unit)
  spawn : Text → List (List UInt8) → ShM σ (Except Unit Nat)
  wait : Nat → ShM σ (Except Unit Int)
  yieldNow : ShM σ Unit
  openFile : Text → ShM σ (Except Unit Int)
  write : Int → List UInt8 → ShM σ (Except Unit Nat)
  close : Int → ShM σ Unit

section Argv

/-- The length of `argv_storage`. -/
def argvSize : Nat := 16

/-- The arguments go behind the name. `none` is an index out of range. -/
def argvLoop : Nat → List Text → List (List UInt8) → Option (List (List UInt8))
  | _, [], argv => some argv
  | i, a :: args, argv =>
    if i + 1 ≥ 16 then some argv
    else if i + 1 < argv.length then argvLoop (i + 1) args (argv.set (i + 1) a.bytes)
    else none

def argvOf (cmd : Text) (args : List Text) : Option (List (List UInt8)) := do
  let argv ← argvLoop 0 args ((List.replicate argvSize []).set 0 cmd.bytes)
  let count := min (args.length + 1) 16
  if count ≤ argv.length then return argv.take count else none

end Argv

section Env

variable {σ : Type} (con : Part σ Console) (bufPtr : Nat) (sys : CapsuleSystem σ)

/-- Bytes that are no text are not printed. -/
def printBytes (data : List UInt8) : ShM σ Unit :=
  match textOf data with
  | some _ => Prog.modify fun s => con.put (sysWrite data (con.view s)) s
  | none => pure ()

/-- What the shell gets of a call of `sysRead`. -/
def afterRead (buf : List UInt8) (s : σ) : ReadEnd → Outcome σ Stop (Except ShellError Nat × List UInt8)
  | .returned total slice c => .ok (.ok total, slice) (con.put c s)
  | .failed _ => .ok (.error .ioError, buf) s
  | .waits _ c => .err .waits (con.put c s)
  | .exits _ c => .err .killed (con.put c s)

/-- `libc::read` of descriptor 0, on a buffer that has been cleared. -/
def consoleReadLine (buf : List UInt8) : ShM σ (Except ShellError Nat × List UInt8) := fun s =>
  let buf := buf.map fun _ => (0 : UInt8)
  if bufPtr = 0 ∨ buf.length = 0 then .ok (.ok 0, buf) s
  else afterRead con buf s (sysRead bufPtr buf (con.view s))

/-- `libstd::env::current_dir`. -/
def currentDir : ShM σ (Except Unit Libstd.String) := do
  let (len, buf) ← sys.getcwd (List.replicate 256 0)
  match len with
  | .ok len =>
    if len ≤ buf.length then return .ok (Libstd.String.new.pushAll ((buf.take len).takeWhile (· ≠ 0)))
    else Prog.fault
  | .error _ => return .error ()

/-- `CapsuleEnv`. The buffer of `getcwd` is not filled, there are no variables and no files to read, and leaving is a
panic. -/
def capsuleEnv : Environment σ where
  writeStdout := printBytes con
  writeStderr := printBytes con
  readLine := consoleReadLine con bufPtr
  getcwd buf := do
    match ← currentDir sys with
    | .ok s => return (.ok s.asBytes.length, buf)
    | .error _ => return (.error .ioError, buf)
  chdir path := do return (← sys.setCurrentDir path).mapError fun _ => .pathNotFound
  setEnv _ _ := pure (.ok ())
  printEnvs := pure ()
  spawn cmd args :=
    match argvOf cmd args with
    | some argv => do return (← sys.spawn cmd argv).mapError fun _ => .ioError
    | none => Prog.fault
  wait pid := do return (← sys.wait pid).mapError fun _ => .ioError
  yieldCpu := sys.yieldNow
  openFile path _ := do return (← sys.openFile path).mapError fun _ => .pathNotFound
  write fd data := do return (← sys.write fd data).mapError fun _ => .ioError
  close := sys.close
  readFile _ size := pure (.error .ioError, List.replicate size 0)
  exit _ := Prog.fault

end Env

/-! ## What a line can change -/

def Kept {σ α : Type} (f : σ → α) (s t : σ) : Prop := f t = f s

instance {σ α : Type} (f : σ → α) : Std.Refl (Kept f) := ⟨fun _ => rfl⟩

instance {σ α : Type} (f : σ → α) : IsTrans σ (Kept f) := ⟨fun _ _ _ first second => second.trans first⟩

section Keeps

variable {σ : Type} {env : Environment σ} {R : σ → σ → Prop}

/-- The relation holds of every call but those that read. -/
structure Environment.Keeps (env : Environment σ) (R : σ → σ → Prop) : Prop where
  writeStdout : ∀ data, Prog.Within R (env.writeStdout data)
  writeStderr : ∀ data, Prog.Within R (env.writeStderr data)
  getcwd : ∀ buf, Prog.Within R (env.getcwd buf)
  chdir : ∀ path, Prog.Within R (env.chdir path)
  setEnv : ∀ key value, Prog.Within R (env.setEnv key value)
  printEnvs : Prog.Within R env.printEnvs
  spawn : ∀ name args, Prog.Within R (env.spawn name args)
  wait : ∀ pid, Prog.Within R (env.wait pid)
  yieldCpu : Prog.Within R env.yieldCpu
  openFile : ∀ path flags, Prog.Within R (env.openFile path flags)
  write : ∀ fd data, Prog.Within R (env.write fd data)
  close : ∀ fd, Prog.Within R (env.close fd)
  exit : ∀ code, Prog.Within R (env.exit code)

variable [Std.Refl R] [IsTrans σ R] (k : env.Keeps R)

include k

theorem cd_within (cmd : Command) : Prog.Within R (Builtins.cd env cmd) := by
  unfold Builtins.cd
  split_ifs
  · refine (k.chdir _).bind fun r => ?_
    split
    · exact .pure _
    · exact (k.writeStderr _).bind fun _ => (k.writeStderr _).bind fun _ => k.writeStderr _
    · exact k.writeStderr _
    · exact k.writeStderr _
  · exact k.writeStderr _

theorem pwd_within : Prog.Within R (Builtins.pwd env) := by
  refine (k.getcwd _).bind fun r => ?_
  obtain ⟨len, buf⟩ := r
  cases len with
  | ok len =>
    dsimp only
    split_ifs
    · exact (k.writeStdout _).bind fun _ => k.writeStdout _
    · exact .fault
  | error e => exact k.writeStderr _

omit [IsTrans σ R] k in
theorem argList_within (cmd : Command) : Prog.Within R (Builtins.argList cmd : ShM σ _) := by
  unfold Builtins.argList
  split_ifs
  · exact .pure _
  · exact .fault

theorem echoLoop_within (args : List Text) : Prog.Within R (Builtins.echoLoop env args) := by
  induction args with
  | nil => exact .pure _
  | cons arg args ih => exact (k.writeStdout _).bind fun _ => (k.writeStdout _).bind fun _ => ih

theorem echo_within (cmd : Command) : Prog.Within R (Builtins.echo env cmd) := by
  refine (argList_within cmd).bind fun args => ?_
  cases args with
  | nil => exact k.writeStdout _
  | cons arg args =>
    exact (k.writeStdout _).bind fun _ => (echoLoop_within k args).bind fun _ => k.writeStdout _

theorem export_within (cmd : Command) : Prog.Within R (Builtins.export_ env cmd) := by
  unfold Builtins.export_
  split_ifs
  · exact k.writeStderr _
  · dsimp only
    split
    · split
      · split_ifs
        · exact k.writeStderr _
        · exact (k.setEnv _ _).bind fun _ => .pure _
      · exact .fault
    · exact k.writeStderr _

omit [Std.Refl R] in
theorem type_within (cmd : Command) : Prog.Within R (Builtins.type_ env cmd) := by
  unfold Builtins.type_
  split_ifs
  · exact k.writeStderr _
  · exact (k.writeStdout _).bind fun _ => k.writeStdout _

theorem executeBuiltin_within (cmd : Command) : Prog.Within R (executeBuiltin env cmd) := by
  have done : ∀ {m : ShM σ Unit}, Prog.Within R m → Prog.Within R (do m; return true) :=
    fun h => h.bind fun _ => .pure _
  unfold executeBuiltin
  split_ifs
  · exact done (cd_within k cmd)
  · exact done (pwd_within k)
  · exact done (echo_within k cmd)
  · exact done (export_within k cmd)
  · exact done k.printEnvs
  · exact done (type_within k cmd)
  · exact done (Prog.Within.forEach fun line _ => k.writeStdout _)
  · exact done ((k.writeStdout _).bind fun _ => (k.exit _).bind nofun)
  · exact done (k.writeStdout _)
  · exact .pure _

theorem spawnStage_within (i : Nat) (cmd : Command) : Prog.Within R (spawnStage env i cmd) := by
  refine (argList_within cmd).bind fun args => (k.spawn _ _).bind fun r => ?_
  cases r with
  | error e =>
    exact (k.writeStderr _).bind fun _ => (k.writeStderr _).bind fun _ => (k.writeStderr _).bind fun _ => .pure _
  | ok pid =>
    refine (k.writeStderr _).bind fun _ => ?_
    split
    · exact .fault
    · exact (k.writeStderr _).bind fun _ => (k.writeStderr _).bind fun _ => (k.writeStderr _).bind fun _ =>
        (k.writeStderr _).bind fun _ => .pure _

theorem pipelineLoop_within (p : Pipeline) (rounds i : Nat) : Prog.Within R (pipelineLoop env p rounds i) := by
  induction rounds generalizing i with
  | zero => exact k.yieldCpu
  | succ rounds ih =>
    unfold pipelineLoop
    split_ifs
    · refine (spawnStage_within k _ _).bind fun goesOn => ?_
      cases goesOn with
      | true => exact ih _
      | false => exact .pure _
    · exact .fault

theorem runCommand_within (cmd : Command) : Prog.Within R (runCommand env cmd) := by
  refine (executeBuiltin_within k cmd).bind fun builtin => ?_
  cases builtin with
  | true => exact .pure _
  | false =>
    refine (argList_within cmd).bind fun args => (k.spawn _ _).bind fun r => ?_
    cases r with
    | ok pid => exact (k.wait _).bind fun _ => .pure _
    | error e => exact (k.writeStderr _).bind fun _ => (k.writeStderr _).bind fun _ => k.writeStderr _

theorem executePipeline_within (line : Text) : Prog.Within R (executePipeline env line) := by
  unfold executePipeline
  dsimp only
  split_ifs
  · exact .pure _
  · split
    · exact .fault
    · exact .pure _
    · split_ifs
      · exact .pure _
      · exact runCommand_within k _
      · exact pipelineLoop_within k _ _ _

theorem executeBytes_within (bytes : List UInt8) : Prog.Within R (executeBytes env bytes) := by
  unfold executeBytes
  split
  · exact executePipeline_within k _
  · exact k.writeStderr _

theorem clearScreen_within : Prog.Within R (clearScreen env) := by
  refine (k.openFile _ _).bind fun r => ?_
  cases r with
  | ok ttyFd => exact (k.write _ _).bind fun _ => k.close _
  | error e => exact .pure _

end Keeps

/-! ## Lines that are typed -/

/-- The line `keys` fits the buffer at all times, and `enter` ends it. -/
structure TypedLine where
  keys : List UInt8
  enter : UInt8
  fits : FitsFrom inputSize [] keys
  ends : newline enter = lineFeed

namespace TypedLine

def bytes (l : TypedLine) : List UInt8 := l.keys ++ [l.enter]

/-- What the shell gets of it. -/
def received (l : TypedLine) : List UInt8 := lineAfter [] l.keys ++ [lineFeed]

end TypedLine

section Session

variable {σ : Type} (con : Part σ Console) (env : Environment σ)

/-- Nothing has been taken from the console. -/
abbrev SameInput : σ → σ → Prop := Kept fun s => (con.view s).input

/-- A line is taken from the console and echoed. -/
def takeLine (l : TypedLine) : ShM σ Unit :=
  Prog.modify fun s =>
    con.put ⟨(con.view s).input.drop l.bytes.length, (con.view s).screen ++ echo [] l.keys ++ [lineFeed]⟩ s

/-- A line that has been begun is echoed, and the shell waits for more of it. -/
def takeBegun {α : Type} (begun : List UInt8) : ShM σ α := fun s =>
  .err .waits (con.put ⟨[], (con.view s).screen ++ echo [] begun⟩ s)

def sessionLine (l : TypedLine) : ShM σ Unit := do
  env.writeStdout prompt
  takeLine con l
  executeBytes env l.received

/-- The lines one after the other, each as it was edited. -/
def session (lines : List TypedLine) (begun : List UInt8) : ShM σ (List UInt8) := do
  Prog.forEach (sessionLine con env) lines
  env.writeStdout prompt
  takeBegun con begun

end Session

/-- The relation holds of every call. -/
structure CapsuleSystem.Keeps {σ : Type} (sys : CapsuleSystem σ) (R : σ → σ → Prop) : Prop where
  getcwd : ∀ buf, Prog.Within R (sys.getcwd buf)
  setCurrentDir : ∀ path, Prog.Within R (sys.setCurrentDir path)
  spawn : ∀ cmd argv, Prog.Within R (sys.spawn cmd argv)
  wait : ∀ pid, Prog.Within R (sys.wait pid)
  yieldNow : Prog.Within R sys.yieldNow
  openFile : ∀ path, Prog.Within R (sys.openFile path)
  write : ∀ fd data, Prog.Within R (sys.write fd data)
  close : ∀ fd, Prog.Within R (sys.close fd)

section Capsule

variable {σ : Type} {con : Part σ Console} {bufPtr : Nat} {sys : CapsuleSystem σ}

theorem printBytes_within (data : List UInt8) : Prog.Within (SameInput con) (printBytes con data) := by
  unfold printBytes
  split
  · refine .modify fun s => ?_
    exact (congrArg Console.input (con.view_put (sysWrite data (con.view s)) s) :)
  · exact .pure _

theorem currentDir_within {R : σ → σ → Prop} [Std.Refl R] [IsTrans σ R] (keeps : sys.Keeps R) :
    Prog.Within R (currentDir sys) := by
  refine (keeps.getcwd _).bind fun r => ?_
  obtain ⟨len, buf⟩ := r
  cases len with
  | ok len =>
    dsimp only
    split_ifs
    · exact .pure _
    · exact .fault
  | error e => exact .pure _

theorem capsuleEnv_keeps (keeps : sys.Keeps (SameInput con)) : (capsuleEnv con bufPtr sys).Keeps (SameInput con) where
  writeStdout := printBytes_within
  writeStderr := printBytes_within
  getcwd buf := by
    refine (currentDir_within keeps).bind fun r => ?_
    cases r <;> exact .pure _
  chdir path := (keeps.setCurrentDir path).bind fun _ => .pure _
  setEnv _ _ := .pure _
  printEnvs := .pure _
  spawn cmd args := by
    unfold capsuleEnv
    dsimp only
    split
    · exact (keeps.spawn _ _).bind fun _ => .pure _
    · exact .fault
  wait pid := (keeps.wait pid).bind fun _ => .pure _
  yieldCpu := keeps.yieldNow
  openFile path _ := (keeps.openFile path).bind fun _ => .pure _
  write fd data := (keeps.write fd data).bind fun _ => .pure _
  close := keeps.close
  exit _ := .fault

theorem consoleReadLine_eq (valid : bufPtr ≠ 0) {buf : List UInt8} (length : buf.length = inputSize) (s : σ) :
    consoleReadLine con bufPtr buf s =
      afterRead con (buf.map fun _ => 0) s (sysRead bufPtr (buf.map fun _ => 0) (con.view s)) := by
  refine if_neg ?_
  rw [List.length_map, length]
  simp [valid, inputSize]

theorem consoleReadLine_line (valid : bufPtr ≠ 0) (l : TypedLine) {buf rest : List UInt8} {s : σ}
    (length : buf.length = inputSize) (input : (con.view s).input = l.bytes ++ rest) :
    ∃ total buf', consoleReadLine con bufPtr buf s =
        .ok (.ok total, buf') (con.put ⟨rest, (con.view s).screen ++ echo [] l.keys ++ [lineFeed]⟩ s) ∧
      buf'.length = inputSize ∧ total ≤ buf'.length ∧ buf'.take total = l.received := by
  have cleared : (buf.map fun _ => (0 : UInt8)).length = inputSize := by rw [List.length_map, length]
  have typed : con.view s = ⟨l.keys ++ l.enter :: rest, (con.view s).screen⟩ := by
    rw [List.append_cons, ← TypedLine.bytes, ← input]
  obtain ⟨total, buf', run, length', within, took⟩ :=
    @sysRead_line _ (buf.map fun _ => 0) _ rest (con.view s).screen _ valid (cleared ▸ l.fits) l.ends
  refine ⟨total, buf', ?_, length'.trans cleared, within, took⟩
  rw [consoleReadLine_eq valid length, typed, run]
  rfl

theorem consoleReadLine_begun (valid : bufPtr ≠ 0) {begun buf : List UInt8} {s : σ}
    (fits : FitsFrom inputSize [] begun) (length : buf.length = inputSize) (input : (con.view s).input = begun) :
    consoleReadLine con bufPtr buf s = takeBegun con begun s := by
  have cleared : (buf.map fun _ => (0 : UInt8)).length = inputSize := by rw [List.length_map, length]
  have typed : con.view s = ⟨begun, (con.view s).screen⟩ := by rw [← input]
  obtain ⟨buf', run⟩ :=
    @sysRead_waits _ (buf.map fun _ => 0) _ (con.view s).screen valid (cleared ▸ fits)
  rw [consoleReadLine_eq valid length, typed, run]
  rfl

/-- A round in which something is read. -/
theorem shellRound_read {env : Environment σ} {buf buf' bytes : List UInt8} {s u v : σ} {total : Nat}
    (prompted : env.writeStdout prompt s = .ok () u) (read : env.readLine buf u = .ok (.ok total, buf') v)
    (some_byte : 0 < total) (within : total ≤ buf'.length) (took : buf'.take total = bytes) :
    shellRound env buf s = (executeBytes env bytes >>= fun _ => pure buf') v := by
  rw [shellRound, Prog.bind_ok prompted, Prog.bind_ok read]
  dsimp only
  rw [if_pos some_byte, if_pos within, took]

section Round

variable {env : Environment σ} {buf rest begun : List UInt8} {s : σ} {l : TypedLine}

/-- A round in which a line is typed. -/
theorem shellRound_line (valid : bufPtr ≠ 0) (keeps : env.Keeps (SameInput con))
    (reads : env.readLine = consoleReadLine con bufPtr) (length : buf.length = inputSize)
    (input : (con.view s).input = l.bytes ++ rest) : ∃ buf', buf'.length = inputSize ∧
      shellRound env buf s = (sessionLine con env l >>= fun _ => pure buf') s := by
  cases run : env.writeStdout prompt s with
  | ok a u =>
    have same : (con.view u).input = l.bytes ++ rest := by
      have kept := keeps.writeStdout prompt s
      rw [run] at kept
      exact Eq.trans kept input
    obtain ⟨total, buf', read, length', within, took⟩ := consoleReadLine_line valid l length same
    have takes : takeLine con l u =
        .ok () (con.put ⟨rest, (con.view u).screen ++ echo [] l.keys ++ [lineFeed]⟩ u) := by
      rw [takeLine, Prog.modify_apply, same, List.drop_left]
    have some_byte : 0 < total := by
      have count := congrArg List.length took
      rw [List.length_take, TypedLine.received, List.length_append, List.length_singleton] at count
      omega
    refine ⟨buf', length', ?_⟩
    rw [shellRound_read run (reads ▸ read) some_byte within took, sessionLine, ← Prog.bind_assoc, Prog.bind_ok run,
      ← Prog.bind_assoc, Prog.bind_ok takes]
  | err e u =>
    refine ⟨buf, length, ?_⟩
    rw [shellRound, sessionLine, ← Prog.bind_assoc, Prog.bind_err run, Prog.bind_err run]
  | fault u =>
    refine ⟨buf, length, ?_⟩
    rw [shellRound, sessionLine, ← Prog.bind_assoc, Prog.bind_fault run, Prog.bind_fault run]

theorem sessionLine_input (keeps : env.Keeps (SameInput con)) {t : σ}
    (input : (con.view s).input = l.bytes ++ rest) (run : sessionLine con env l s = .ok () t) :
    (con.view t).input = rest := by
  obtain ⟨_, u, prompted, later⟩ := Prog.bind_eq_ok run
  obtain ⟨_, v, taken, executed⟩ := Prog.bind_eq_ok later
  have first := keeps.writeStdout prompt s
  have last := executeBytes_within keeps l.received v
  rw [prompted] at first
  rw [executed] at last
  cases taken
  have same : (con.view u).input = l.bytes ++ rest := Eq.trans first input
  have taken : (con.view t).input = (con.view u).input.drop l.bytes.length :=
    Eq.trans last (congrArg Console.input (con.view_put _ _))
  rw [taken, same, List.drop_left]

/-- A round in which a line is begun. -/
theorem shellRound_begun (valid : bufPtr ≠ 0) (keeps : env.Keeps (SameInput con))
    (reads : env.readLine = consoleReadLine con bufPtr) (fits : FitsFrom inputSize [] begun)
    (length : buf.length = inputSize) (input : (con.view s).input = begun)
    (next : List UInt8 → ShM σ (List UInt8)) :
    (shellRound env buf >>= next) s = (env.writeStdout prompt >>= fun _ => takeBegun con begun) s := by
  rw [shellRound, ← Prog.bind_assoc]
  refine Prog.bind_congr fun a u run => ?_
  have same : (con.view u).input = begun := by
    have kept := keeps.writeStdout prompt s
    rw [run] at kept
    exact Eq.trans kept input
  have read := consoleReadLine_begun valid fits length same
  rw [reads, ← Prog.bind_assoc, Prog.bind_err (by rw [read]; rfl)]
  rfl

/-- The loop of the shell while lines are typed. -/
theorem shellLoop_session (valid : bufPtr ≠ 0) (keeps : env.Keeps (SameInput con))
    (reads : env.readLine = consoleReadLine con bufPtr) {lines : List TypedLine}
    (fits : FitsFrom inputSize [] begun) (length : buf.length = inputSize)
    (input : (con.view s).input = lines.flatMap TypedLine.bytes ++ begun) (more : Nat) :
    shellLoop env (lines.length + 1 + more) buf s = session con env lines begun s := by
  induction lines generalizing buf s with
  | nil =>
    rw [List.length_nil, Nat.zero_add, Nat.add_comm]
    exact shellRound_begun valid keeps reads fits length input _
  | cons l lines ih =>
    rw [List.flatMap_cons, List.append_assoc] at input
    obtain ⟨buf', length', round⟩ := shellRound_line valid keeps reads length input
    have rounds : (l :: lines).length + 1 + more = (lines.length + 1 + more) + 1 := by
      rw [List.length_cons]
      omega
    have first : shellLoop env ((lines.length + 1 + more) + 1) buf s =
        (sessionLine con env l >>= fun _ => shellLoop env (lines.length + 1 + more) buf') s := by
      rw [shellLoop, Prog.bind_apply, round, ← Prog.bind_apply, ← Prog.bind_assoc]
      rfl
    have second : session con env (l :: lines) begun s =
        (sessionLine con env l >>= fun _ => session con env lines begun) s := by
      rw [session, Prog.forEach]
      exact (congrFun (Prog.bind_assoc _ _ _) s).symm
    rw [rounds, first, second]
    exact Prog.bind_congr fun _ t run => ih length' (sessionLine_input keeps input run)

end Round

/-- The shell, from its start. -/
theorem runShell_session (valid : bufPtr ≠ 0) (keeps : sys.Keeps (SameInput con)) {lines : List TypedLine}
    {begun : List UInt8} {s : σ} (fits : FitsFrom inputSize [] begun)
    (input : (con.view s).input = lines.flatMap TypedLine.bytes ++ begun) (more : Nat) :
    runShell (capsuleEnv con bufPtr sys) (lines.length + 1 + more) s =
      (clearScreen (capsuleEnv con bufPtr sys) >>= fun _ => session con (capsuleEnv con bufPtr sys) lines begun) s := by
  have keeps' : (capsuleEnv con bufPtr sys).Keeps (SameInput con) := capsuleEnv_keeps keeps
  refine Prog.bind_congr fun _ t run => ?_
  have kept := clearScreen_within keeps' s
  rw [run] at kept
  exact shellLoop_session valid keeps' rfl fits List.length_replicate (Eq.trans kept input) more

end Capsule

/-! ## A session with a mistake -/

/-- The whole state is the console. -/
def onlyConsole : Part Console Console := ⟨id, fun c _ => c, fun _ _ => rfl, fun _ => rfl⟩

/-- A system in which nothing can be found. -/
def emptySystem (σ : Type) : CapsuleSystem σ where
  getcwd buf := pure (.error (), buf)
  setCurrentDir _ := pure (.error ())
  spawn _ _ := pure (.error ())
  wait _ := pure (.error ())
  yieldNow := pure ()
  openFile _ := pure (.error ())
  write _ _ := pure (.error ())
  close _ := pure ()

theorem emptySystem_keeps {σ : Type} {R : σ → σ → Prop} [Std.Refl R] : (emptySystem σ).Keeps R :=
  ⟨fun _ => .pure _, fun _ => .pure _, fun _ _ => .pure _, fun _ => .pure _, .pure _, fun _ => .pure _,
    fun _ _ => .pure _, fun _ => .pure _⟩

/-- `pws`, a backspace, `d` and enter. -/
def pwdLine : TypedLine where
  keys := [112, 119, 115, 8, 100]
  enter := 13
  fits := .of_short (by simp [Plain, lineFeed]) (by decide)
  ends := rfl

/-- One console for all of this. -/
def pwdConsole : Console := ⟨pwdLine.bytes, []⟩

theorem runShell_session_pwd : let env := capsuleEnv onlyConsole 4096 (emptySystem Console)
    runShell env 2 pwdConsole = (clearScreen env >>= fun _ => session onlyConsole env [pwdLine] []) pwdConsole :=
  have input : (onlyConsole.view pwdConsole).input = [pwdLine].flatMap TypedLine.bytes ++ [] := rfl
  runShell_session (show (4096 : Nat) ≠ 0 by decide) emptySystem_keeps (FitsFrom.nil (by decide)) input 0

end CapsuleOS.Osh
